import Prims.Client.Flood
import Prims.Node.Ingestion

/-!
# A load test against nodes

The flood command publishes to a network of nodes, each of which has a store and a mempool of its
own. A published message may reach any node at any later time, in any order and any number of times.
Meanwhile the nodes serve requests, take the messages of other peers and propose blocks.

The event loop of a node does not check what it takes from the network, so the transfers of the load
test enter the mempools whether or not their sender has an account.

## Main definitions

* `FloodNetwork`, `FloodEvent`, `FloodNetwork.step`: the client, the network and the nodes
* `Node.Carries`: a node whose mempool and blocks have certain transactions only

## Main results

* `flood_reaches_nodes`: what the nodes hold in every run of a load test
-/

namespace Prims

open Bincode

/-- What the client still has to do, what the network has published of it, and the nodes. -/
structure FloodNetwork (ν κ : Type) (n : ℕ) where
  client : Interaction (String × Bytes) PublishReply PublishReply
  published : List (String × Bytes) := []
  nodes : ν → Node κ n

/-- The client is told whether its message is published, a published message reaches a node, or a
node acts by itself. -/
inductive FloodEvent (ν κ : Type) where
  | publish (reply : PublishReply)
  | deliver (node : ν) (task : κ) (index : ℕ)
  | act (node : ν) (event : NodeEvent κ)

/-- The node has the transaction in its mempool or in a block. -/
def Node.Holds {κ : Type} {n : ℕ} (s : Node κ n) (transaction : Transaction) : Prop :=
  (∃ i, transaction ∈ s.tasks.state i) ∨
    ∃ block, .block block ∈ s.tasks.returned ∧ transaction ∈ block.transactions

/-! ## One node -/

section Node

variable {engine : WasmEngine} {P : Primitives} {κ : Type} [DecidableEq κ] {n : ℕ} [NeZero n]
  {V : Transaction → Prop} {storage : Db} {s : Node κ n}

/-- **The node carries only transactions with `V`**, and its accounts are those of the store. -/
structure Node.Carries (V : Transaction → Prop) (storage : Db) (s : Node κ n) : Prop where
  accounts : ∀ address, getAccount s.storage address = getAccount storage address
  tasks : s.tasks.Sound (fun mempool => ∀ i, ∀ transaction ∈ mempool i, V transaction)
    (AddsOnly V) (RepliesOnly V) (ReturnsOnly V)

omit [DecidableEq κ] [NeZero n] in
theorem Node.carries_start : (Node.start κ n storage).Carries V storage :=
  ⟨fun _ => rfl, ⟨fun _ => nofun, nofun, nofun⟩⟩

omit [DecidableEq κ] [NeZero n] in
theorem Node.Carries.of_holds (h : s.Carries V storage) {transaction : Transaction}
    (hholds : s.Holds transaction) : V transaction := by
  rcases hholds with ⟨i, hmem⟩ | ⟨block, hblock, hmem⟩
  · exact h.tasks.state i transaction hmem
  · exact h.tasks.returned _ hblock block rfl transaction hmem

/-- A request adds what is validated, and a message what it delivers. -/
theorem Node.Carries.step (h : s.Carries V storage)
    (hvalidated : ∀ transaction, Validated P storage transaction → V transaction)
    {event : NodeEvent κ}
    (hdelivered : ∀ task data transaction, event = .gossip task data →
      deliveredTransaction data = some transaction → V transaction) :
    (s.step engine P event).Carries V storage := by
  cases event with
  | submit task hexTx =>
    rw [Node.step]
    split
    · exact h
    · rcases admitTransaction_cases engine (P := P) hexTx s.storage with
        ⟨e, hfail⟩ | ⟨transaction, call, after, -, hcheck, hok, -, hframe⟩
      · rw [hfail]
        exact h
      · rw [hok]
        refine ⟨fun address => (hframe.getAccount address).trans (h.accounts address), ?_⟩
        apply h.tasks.spawn
        apply keeps_enqueueTransaction
        exact hvalidated transaction
          ((validated_of_checkTransaction hcheck).congr (h.accounts _).symm)
  | gossip task data =>
    rw [Node.step]
    cases hdata : deliveredTransaction data with
    | none => exact h
    | some transaction =>
      refine ⟨h.accounts, h.tasks.spawn task (keeps_dispatchTransaction ?_)⟩
      exact hdelivered task data transaction rfl hdata
  | propose task proposer proposerSecretKey previousBlockHash height timestamp maxTransactions =>
    rw [Node.step]
    split
    · exact h
    · refine ⟨h.accounts, h.tasks.spawn task ((keeps_takeForBlock maxTransactions).bind ?_)⟩
      rintro transactions htransactions block ⟨⟩
      exact htransactions
  | advance task => exact ⟨h.accounts, h.tasks.advance handle_only task⟩

end Node

/-! ## The network -/

namespace FloodNetwork

section Network

variable (engine : WasmEngine) (P : Primitives) {ν κ : Type} [DecidableEq ν] [DecidableEq κ] {n : ℕ}
  [NeZero n]

/-- Nothing is published yet, and all mempools are empty. -/
def start (κ : Type) (n : ℕ) (client : Interaction (String × Bytes) PublishReply PublishReply)
    (storage : ν → Db) : FloodNetwork ν κ n where
  client
  nodes node := Node.start κ n (storage node)

/-- An event at one node. -/
def onNode (s : FloodNetwork ν κ n) (node : ν) (event : NodeEvent κ) : FloodNetwork ν κ n :=
  { s with nodes := Function.update s.nodes node ((s.nodes node).step engine P event) }

def step (s : FloodNetwork ν κ n) : FloodEvent ν κ → FloodNetwork ν κ n
  | .publish reply =>
    match s.client with
    | .done _ => s
    | .ask message next =>
      { s with
        client := next reply
        published := s.published ++ accepted [(message, reply)] }
  | .deliver node task index =>
    match s.published[index]? with
    | none => s
    | some message => s.onNode engine P node (.gossip task message.2)
  | .act node event => s.onNode engine P node event

def run (s : FloodNetwork ν κ n) (events : List (FloodEvent ν κ)) : FloodNetwork ν κ n :=
  events.foldl (step engine P) s

/-- What the client is told in a run. -/
def replies (events : List (FloodEvent ν κ)) : List PublishReply :=
  events.filterMap fun event => match event with
    | .publish reply => some reply
    | _ => none

variable {engine P} {s : FloodNetwork ν κ n}

theorem step_client {event : FloodEvent ν κ} (h : replies [event] = []) :
    (s.step engine P event).client = s.client ∧
      (s.step engine P event).published = s.published := by
  cases event with
  | publish reply => cases h
  | deliver node task index =>
    rw [step]
    split <;> exact ⟨rfl, rfl⟩
  | act node event => exact ⟨rfl, rfl⟩

/-- **The client sees its replies only**: whatever the nodes do, it is where the replies bring it,
and what was accepted on the way is published. -/
theorem run_client (events : List (FloodEvent ν κ)) :
    (s.run engine P events).client = (s.client.answer (replies events)).1 ∧
      (s.run engine P events).published =
        s.published ++ accepted (s.client.answer (replies events)).2 := by
  induction events generalizing s with
  | nil =>
    rw [show replies ([] : List (FloodEvent ν κ)) = [] from rfl, Interaction.answer_nil]
    exact ⟨rfl, (List.append_nil _).symm⟩
  | cons event events ih =>
    have hrun : s.run engine P (event :: events) =
        (s.step engine P event).run engine P events := rfl
    rw [hrun, ih.1, ih.2]
    cases event with
    | publish reply =>
      have hreplies : replies (FloodEvent.publish reply :: events) = reply :: replies events := rfl
      rw [hreplies, step]
      cases hclient : s.client with
      | done result =>
        dsimp only
        rw [hclient, Interaction.answer_done, Interaction.answer_done]
        exact ⟨rfl, rfl⟩
      | ask message next =>
        refine ⟨rfl, ?_⟩
        show s.published ++ accepted [(message, reply)] ++ _ = s.published ++ accepted (_ :: _)
        rw [List.append_assoc, ← List.singleton_append (x := (message, reply))]
        congr 1
        exact (List.filterMap_append ..).symm
    | deliver node task index =>
      have hstep : (s.step engine P (.deliver node task index)).client = s.client ∧
          (s.step engine P (.deliver node task index)).published = s.published := step_client rfl
      rw [hstep.1, hstep.2]
      exact ⟨rfl, rfl⟩
    | act node event => exact ⟨rfl, rfl⟩

/-- What is published stays published. -/
theorem published_subset_run (events : List (FloodEvent ν κ)) :
    s.published ⊆ (s.run engine P events).published := by
  rw [(run_client events).2]
  exact List.subset_append_left _ _

/-- An event at a node leaves the others as they are. -/
theorem carries_onNode {V : ν → Transaction → Prop} {storage : ν → Db}
    (h : ∀ node, (s.nodes node).Carries (V node) (storage node))
    (hvalidated : ∀ node transaction, Validated P (storage node) transaction → V node transaction)
    {node : ν} {event : NodeEvent κ}
    (hdelivered : ∀ task data transaction, event = .gossip task data →
      deliveredTransaction data = some transaction → V node transaction) (node' : ν) :
    ((s.onNode engine P node event).nodes node').Carries (V node') (storage node') := by
  rw [onNode]
  dsimp only
  by_cases hnode : node' = node
  · rw [hnode, Function.update_self]
    exact (h node).step (hvalidated node) hdelivered
  · rw [Function.update_of_ne hnode]
    exact h node'

/-- **What the nodes carry in a run**, if `V` holds of all that is validated and of all that the
messages deliver which are published or come from other peers. -/
theorem carries_run {V : ν → Transaction → Prop} {storage : ν → Db}
    (h : ∀ node, (s.nodes node).Carries (V node) (storage node))
    (hvalidated : ∀ node transaction, Validated P (storage node) transaction → V node transaction)
    {events : List (FloodEvent ν κ)}
    (hpublished : ∀ message ∈ (s.run engine P events).published, ∀ node transaction,
      deliveredTransaction message.2 = some transaction → V node transaction)
    (hothers : ∀ node task data, FloodEvent.act node (.gossip task data) ∈ events →
      ∀ transaction, deliveredTransaction data = some transaction → V node transaction) :
    ∀ node, ((s.run engine P events).nodes node).Carries (V node) (storage node) := by
  induction events generalizing s with
  | nil => exact h
  | cons event events ih =>
    have hrun : s.run engine P (event :: events) =
        (s.step engine P event).run engine P events := rfl
    rw [hrun] at hpublished ⊢
    refine ih ?_ hpublished fun node task data hmem => hothers node task data (.tail _ hmem)
    cases event with
    | publish reply =>
      rw [step]
      split <;> exact h
    | deliver node task index =>
      rw [step]
      split
      · exact h
      · next message hmessage =>
        apply carries_onNode h hvalidated
        rintro task data transaction ⟨⟩ hdata
        apply hpublished message _ node transaction hdata
        apply published_subset_run
        have hstep : (s.step engine P (.deliver node task index)).published = s.published :=
          (step_client rfl).2
        rw [hstep]
        exact List.mem_of_getElem? hmessage
    | act node event =>
      apply carries_onNode h hvalidated
      rintro task data transaction rfl hdata
      exact hothers node task data (.head _) transaction hdata

/-- A message that is delivered and taken, as the node sees it. -/
theorem nodes_run_deliver {node : ν} {task : κ} {index : ℕ} {message : String × Bytes}
    (h : s.published[index]? = some message) :
    (s.run engine P [.deliver node task index, .act node (.advance task)]).nodes node =
      (s.nodes node).run engine P [.gossip task message.2, .advance task] := by
  show ((s.step engine P (.deliver node task index)).onNode engine P node (.advance task)).nodes
    node = _
  rw [step, h]
  simp only [onNode, Function.update_self]
  rfl

end Network

end FloodNetwork

/-! ## The load test -/

section LoadTest

variable {P : Primitives} {env : FloodEnvironment} {count startNonce amount : UInt64}

/-- A transfer of the load test arrives as it was published. -/
theorem deliveredTransaction_flood {transaction : Transaction}
    (h : transaction ∈ floodTransactions P env count startNonce amount) :
    deliveredTransaction (publishTransaction P transaction).2 = some transaction :=
  deliveredTransaction_toBytes (fits_of_mem h).1 (fits_of_mem h).2

end LoadTest

/-- **What the nodes hold in a load test.** In every run of the client, the network and the nodes,
whatever is published are the first messages of the client, in order and each once. If the messages
of other peers deliver validated transactions only, then a transaction that a node holds is signed
by its sender, and it is validated there or it is a transfer of the load test that was published. No
account changes. And each published transfer can enter the mempool of every node, where all of them
come to one partition, whether or not they are validated there. -/
theorem flood_reaches_nodes (engine : WasmEngine) (P : Primitives) (hP : P.AcceptsOwnSignatures)
    (env : FloodEnvironment) (count startNonce amount : UInt64) (seedNodes : List String)
    (client : Interaction (String × Bytes) PublishReply PublishReply)
    (hclient : flood P env count startNonce amount seedNodes = .ok client)
    (ν κ : Type) [DecidableEq ν] [DecidableEq κ] (n : ℕ) [NeZero n] (storage : ν → Db)
    (events : List (FloodEvent ν κ))
    (hothers : ∀ node task data, FloodEvent.act node (.gossip task data) ∈ events →
      ∀ transaction, deliveredTransaction data = some transaction →
        Validated P (storage node) transaction) :
    let s := (FloodNetwork.start κ n client storage).run engine P events
    let transactions := floodTransactions P env count startNonce amount
    s.published <+: transactions.map (publishTransaction P) ∧
      ∀ node, (∀ address, getAccount (s.nodes node).storage address =
          getAccount (storage node) address) ∧
        (∀ transaction, (s.nodes node).Holds transaction →
          (∃ senderPublicKey : Bytes32, transaction.sender = senderPublicKey.toList ∧
            verifyTransaction P transaction senderPublicKey = .ok true) ∧
          (Validated P (s.nodes node).storage transaction ∨
            transaction ∈ transactions ∧ publishTransaction P transaction ∈ s.published)) ∧
        ∀ transaction ∈ transactions, publishTransaction P transaction ∈ s.published →
          ∀ task, (s.nodes node).tasks.running task = none → ∃ index,
            let reached := s.run engine P [.deliver node task index, .act node (.advance task)]
            transaction ∈ (reached.nodes node).tasks.state
              (partitionForAddress n (P.publicKey env.senderKey).toList) := by
  intro s transactions
  have hpublished : s.published <+: transactions.map (publishTransaction P) := by
    show ((FloodNetwork.start κ n client storage).run engine P events).published <+: _
    rw [(FloodNetwork.run_client events).2]
    show [] ++ accepted (client.answer (FloodNetwork.replies events)).2 <+: _
    rw [List.nil_append, flood_eq_ok hclient]
    exact (sent_sendAll (floodMessages P env count startNonce amount) _).inOrder
  let V (node : ν) (transaction : Transaction) : Prop :=
    Validated P (storage node) transaction ∨
      transaction ∈ transactions ∧ publishTransaction P transaction ∈ s.published
  have hcarries : ∀ node, (s.nodes node).Carries (V node) (storage node) := by
    apply FloodNetwork.carries_run
    · exact fun node => Node.carries_start
    · exact fun node transaction => Or.inl
    · intro message hmessage node transaction hdelivered
      obtain ⟨published, hmem, rfl⟩ := List.mem_map.mp (hpublished.subset hmessage)
      rw [deliveredTransaction_flood hmem] at hdelivered
      cases hdelivered
      exact .inr ⟨hmem, hmessage⟩
    · exact fun node task data hmem transaction hdelivered =>
        .inl (hothers node task data hmem transaction hdelivered)
  refine ⟨hpublished, fun node => ⟨(hcarries node).accounts, ?_, ?_⟩⟩
  · intro transaction hholds
    rcases (hcarries node).of_holds hholds with hvalidated | ⟨hmem, hmessage⟩
    · exact ⟨hvalidated.signature, .inl (hvalidated.congr ((hcarries node).accounts _))⟩
    · exact ⟨⟨_, verifyTransaction_flood hP hmem⟩, .inr ⟨hmem, hmessage⟩⟩
  · intro transaction hmem hmessage task hidle
    obtain ⟨index, hindex⟩ := List.mem_iff_getElem?.mp hmessage
    refine ⟨index, ?_⟩
    rw [← (verifyTransaction_flood hP hmem).1]
    show transaction ∈ ((s.run engine P [.deliver node task index, .act node (.advance task)]).nodes
      node).tasks.state _
    rw [FloodNetwork.nodes_run_deliver hindex]
    exact Node.mem_mempool_of_gossip hidle (deliveredTransaction_flood hmem)

/-- One transfer of two is published, and reaches the only node. -/
theorem sampleFlooder_reaches :
    ∃ client, flood proposalPrimitives sampleFlooder 2 7 5 [] = .ok client ∧
      let s := (FloodNetwork.start Unit 1 client fun _ : Unit => fundedDb).run noEngine
        proposalPrimitives [.publish (.ok ()), .deliver () () 0, .act () (.advance ())]
      ∀ transaction, (s.nodes ()).Holds transaction →
        Validated proposalPrimitives (s.nodes ()).storage transaction ∨
          transaction ∈ floodTransactions proposalPrimitives sampleFlooder 2 7 5 ∧
            publishTransaction proposalPrimitives transaction ∈ s.published := by
  have hclient : flood proposalPrimitives sampleFlooder 2 7 5 [] =
      .ok (sendAll floodPolicy (floodMessages proposalPrimitives sampleFlooder 2 7 5)) := rfl
  refine ⟨_, hclient, fun transaction hholds => ?_⟩
  have hreaches := flood_reaches_nodes noEngine proposalPrimitives
    proposalPrimitives_acceptsOwnSignatures sampleFlooder 2 7 5 [] _ hclient Unit Unit 1
    (fun _ => fundedDb) [.publish (.ok ()), .deliver () () 0, .act () (.advance ())] (by simp)
  exact ((hreaches.2 ()).2.1 transaction hholds).2

end Prims
