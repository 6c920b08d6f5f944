import Prims.Api.SendTransaction
import Prims.Consensus.Proposal
import Prims.Lib.Tasks
import Prims.Network.Message

/-!
# The two ways into the mempool

The node of `main.rs` takes transactions from its RPC server and from the gossip network. Requests
and messages are handled by tasks that share the store and the mempool, and that interleave at
every command they send to it. A request is checked before its transaction is sent. The event loop
of the network sends what a message delivers without a check, so the mempool, and every block that
is built from it, is as good as the messages are.

No event changes an account: what is true of a transaction when it enters stays true.

## Main definitions

* `deliveredTransaction`: what the event loop takes from a message
* `Node`, `NodeEvent`, `Node.step`: the tasks of the node
* `Validated`: what a transaction must satisfy
* `GossipAuthentic`: the messages of a run deliver transactions that pass the checks

## Main results

* `ingestion_validated`: when the messages do, the mempool and the blocks have validated
  transactions only
-/

namespace Prims

open Bincode

/-! ## The node -/

/-- The transaction that a gossip message delivers. All other messages are printed. -/
def deliveredTransaction (data : Bytes) : Option Transaction :=
  match Network.Message.fromBytes data with
  | .ok (.newTransaction networkTransaction) =>
    (deserialize networkTransaction.payload : Except DecodeError Transaction).toOption
  | _ => none

/-- What the tasks of the node return. -/
inductive NodeOutcome where
  | response (response : RpcSendTransactionResponse)
  | dispatched
  | block (block : Block)

/-- The store, and the tasks on the mempool. -/
structure Node (κ : Type) (n : ℕ) where
  storage : Db
  tasks : Tasks κ (Fin n × MempoolCommand) MempoolReply NodeOutcome (Mempool n)

/-- The events of the node: a request, a message or a proposal starts a task, and a task goes on. -/
inductive NodeEvent (κ : Type) where
  | submit (task : κ) (hexTx : String)
  | gossip (task : κ) (data : Bytes)
  | propose (task : κ) (proposer : Validator) (proposerSecretKey : Bytes32)
      (previousBlockHash : Bytes) (height timestamp : UInt64) (maxTransactions : ℕ)
  | advance (task : κ)

section Node

variable (engine : WasmEngine) (P : Primitives) {κ : Type} [DecidableEq κ] {n : ℕ} [NeZero n]

/-- The task of a message that delivers a transaction. -/
def dispatchTransaction (n : ℕ) [NeZero n] (transaction : Transaction) :
    MempoolProgram n NodeOutcome := do
  Mempool.addTransaction n transaction
  return .dispatched

namespace Node

/-- A node with an empty mempool. -/
def start (κ : Type) (n : ℕ) (storage : Db) : Node κ n where
  storage
  tasks := { state := fun _ => [] }

/-- Start a task on the mempool. -/
def spawn (s : Node κ n) (task : κ) (program : MempoolProgram n NodeOutcome) : Node κ n :=
  { s with tasks := s.tasks.spawn task program }

def step (s : Node κ n) : NodeEvent κ → Node κ n
  | .submit task hexTx =>
    if (s.tasks.running task).isSome then s
    else
      -- the checks and the contract call come before the first command to the mempool
      match (admitTransaction engine P hexTx).run s.storage with
      | (.error _, storage) => { s with storage }
      | (.ok transaction, storage) => spawn { s with storage } task do
          let response ← enqueueTransaction P n transaction
          return .response response
  | .gossip task data =>
    match deliveredTransaction data with
    | none => s
    | some transaction => s.spawn task (dispatchTransaction n transaction)
  | .propose task proposer proposerSecretKey previousBlockHash height timestamp maxTransactions =>
    if maxTransactions = 0 then s
    else s.spawn task do
      let transactions ← Mempool.takeForBlock n maxTransactions
      return .block (proposedBlock P proposer proposerSecretKey previousBlockHash height timestamp
        transactions)
  | .advance task => { s with tasks := s.tasks.advance Mempool.handle task }

def run (s : Node κ n) (events : List (NodeEvent κ)) : Node κ n :=
  events.foldl (step engine P) s

end Node

/-! ## Validated transactions -/

/-- **A validated transaction**: it is small, its sender is a key of 32 bytes under which its
signature is valid, and its nonce is greater than the one of the sender's account. -/
structure Validated (storage : Db) (transaction : Transaction) : Prop where
  size : (serialize transaction).length < maxTransactionSizeBytes
  signature : ∃ senderPublicKey : Bytes32, transaction.sender = senderPublicKey.toList ∧
    verifyTransaction P transaction senderPublicKey = .ok true
  nonce : ∃ account, getAccount storage transaction.sender = .ok (some account) ∧
    account.nonce < transaction.nonce

/-- The mempool and the blocks have validated transactions only. -/
structure Node.OnlyValidated (s : Node κ n) : Prop where
  mempool : ∀ i, ∀ transaction ∈ s.tasks.state i, Validated P s.storage transaction
  blocks : ∀ block, .block block ∈ s.tasks.returned →
    ∀ transaction ∈ block.transactions, Validated P s.storage transaction

/-- What the event delivers from the network, if anything, passes the checks that a request makes
of every transaction, and the sender has an account. -/
def GossipChecked (s : Node κ n) : NodeEvent κ → Prop
  | .gossip _ data => ∀ transaction, deliveredTransaction data = some transaction →
    ∃ account, authenticateTransaction P s.storage transaction = .ok (some account)
  | _ => True

/-- All messages of a run deliver transactions that pass the checks at their time. -/
def GossipAuthentic (s : Node κ n) : List (NodeEvent κ) → Prop
  | [] => True
  | event :: events => GossipChecked P s event ∧ GossipAuthentic (s.step engine P event) events

variable {engine P}

theorem validated_iff {storage : Db} {transaction : Transaction} :
    Validated P storage transaction ↔
      ∃ account, authenticateTransaction P storage transaction = .ok (some account) := by
  constructor
  · rintro ⟨hsize, hsignature, account, haccount, hnonce⟩
    exact ⟨account, authenticateTransaction_eq_ok.mpr ⟨hsize, hsignature, haccount,
      ensure_eq_ok.mpr hnonce⟩⟩
  · rintro ⟨account, h⟩
    obtain ⟨hsize, hsignature, haccount, hnonce⟩ := authenticateTransaction_eq_ok.mp h
    exact ⟨hsize, hsignature, account, haccount, ensure_eq_ok.mp hnonce⟩

theorem Validated.congr {storage storage' : Db} {transaction : Transaction}
    (h : Validated P storage transaction)
    (haccount : getAccount storage' transaction.sender = getAccount storage transaction.sender) :
    Validated P storage' transaction := by
  obtain ⟨account, hfound, hnonce⟩ := h.nonce
  exact ⟨h.size, h.signature, account, haccount.trans hfound, hnonce⟩

/-- What passes all checks is validated. -/
theorem validated_of_checkTransaction {storage : Db} {transaction : Transaction}
    {call : Option ContractCallPayload}
    (h : checkTransaction P storage transaction = .ok call) :
    Validated P storage transaction := by
  rw [checkTransaction, Except.bind_eq_ok] at h
  obtain ⟨account, hauthentic, htype⟩ := h
  rw [Except.mapError_eq_ok] at htype
  cases account with
  | none => exact absurd htype (validateTransactionType_none transaction call)
  | some account => exact validated_iff.mpr ⟨account, hauthentic⟩

/-! ## The tasks keep their word -/

section Keeps

variable {V : Transaction → Prop}

/-- A command adds transactions with `V` only. -/
def AddsOnly (V : Transaction → Prop) (query : Fin n × MempoolCommand) : Prop :=
  ∀ transaction, query.2 = .addTransaction transaction → V transaction

/-- A response has transactions with `V` only. -/
def RepliesOnly (V : Transaction → Prop) (_ : Fin n × MempoolCommand) (reply : MempoolReply) :
    Prop :=
  ∀ transaction ∈ reply.getTransactions, V transaction

/-- A block that is returned has transactions with `V` only. -/
def ReturnsOnly (V : Transaction → Prop) (outcome : NodeOutcome) : Prop :=
  ∀ block, outcome = .block block → ∀ transaction ∈ block.transactions, V transaction

omit [NeZero n] in
/-- The partitions answer with what they hold, and hold what they are sent. -/
theorem handle_only (query : Fin n × MempoolCommand) (mempool : Mempool n)
    (hquery : AddsOnly V query) (hmempool : ∀ i, ∀ transaction ∈ mempool i, V transaction) :
    (∀ i, ∀ transaction ∈ (Mempool.handle query mempool).2 i, V transaction) ∧
      RepliesOnly V query (Mempool.handle query mempool).1 := by
  obtain ⟨partition, command⟩ := query
  have hupdate : ∀ transactions : List Transaction, (∀ transaction ∈ transactions, V transaction) →
      ∀ i, ∀ transaction ∈ Function.update mempool partition transactions i, V transaction := by
    intro transactions htransactions i
    by_cases hi : i = partition
    · rw [hi, Function.update_self]
      exact htransactions
    · rw [Function.update_of_ne hi]
      exact hmempool i
  cases command with
  | addTransaction transaction =>
    refine ⟨hupdate _ fun transaction' hmem => ?_, nofun⟩
    rcases List.mem_append.mp hmem with hmem | hmem
    · exact hmempool partition transaction' hmem
    · rw [List.mem_singleton] at hmem
      exact hmem ▸ hquery transaction rfl
  | takeForBlock maxTransactions =>
    have hperm := selectForBlock_perm maxTransactions (mempool partition)
    refine ⟨hupdate _ fun transaction hmem => ?_, fun transaction hmem => ?_⟩
    · exact hmempool partition transaction (hperm.subset (List.mem_append_right _ hmem))
    · exact hmempool partition transaction (hperm.subset (List.mem_append_left _ hmem))
  | len => exact ⟨hupdate _ (hmempool partition), nofun⟩
  | pendingTransactions => exact ⟨hupdate _ (hmempool partition), hmempool partition⟩

theorem keeps_addTransaction {transaction : Transaction} (h : V transaction) :
    (Mempool.addTransaction n transaction).Keeps (AddsOnly V) (RepliesOnly V) fun _ => True :=
  (Interaction.Keeps.query fun transaction' heq => by cases heq; exact h).bind fun _ _ => trivial

omit [NeZero n] in
theorem keeps_len :
    (Mempool.len n).Keeps (AddsOnly V) (RepliesOnly V) fun _ => True := by
  refine Interaction.Keeps.foldlM (fun total partition _ => ?_) (List.finRange n) trivial
  have hquery : AddsOnly V (partition, MempoolCommand.len) := nofun
  exact (Interaction.Keeps.query hquery).bind fun _ _ => trivial

omit [NeZero n] in
/-- What is taken for a block is what the partitions answered. -/
theorem keeps_takeForBlock (maxTransactions : ℕ) :
    (Mempool.takeForBlock n maxTransactions).Keeps (AddsOnly V) (RepliesOnly V)
      fun transactions => ∀ transaction ∈ transactions, V transaction := by
  have hnil : ∀ transaction ∈ ([] : List Transaction), V transaction := List.forall_mem_nil V
  rw [Mempool.takeForBlock]
  refine keeps_len.bind fun _ _ => ?_
  split
  · exact hnil
  · refine keeps_len.bind fun total _ => ?_
    split
    · exact hnil
    · refine Interaction.Keeps.foldlM (fun selected partition hselected => ?_) (List.finRange n)
        hnil
      split
      · exact hselected
      · have hquery : AddsOnly V
            (partition, MempoolCommand.takeForBlock (maxTransactions - selected.length)) := by
          rintro _ ⟨⟩
        refine (Interaction.Keeps.query hquery).bind fun reply hreply => ?_
        show ∀ transaction ∈ selected ++ reply.getTransactions, V transaction
        intro transaction hmem
        rcases List.mem_append.mp hmem with hmem | hmem
        · exact hselected transaction hmem
        · exact hreply transaction hmem

theorem keeps_enqueueTransaction {transaction : Transaction} (h : V transaction) :
    (do
      let response ← enqueueTransaction P n transaction
      return .response response : MempoolProgram n NodeOutcome).Keeps (AddsOnly V) (RepliesOnly V)
        (ReturnsOnly V) := by
  have henqueue : (enqueueTransaction P n transaction).Keeps (AddsOnly V) (RepliesOnly V)
      fun _ => True :=
    (keeps_addTransaction h).bind fun _ _ => keeps_len.bind fun _ _ => trivial
  exact henqueue.bind fun _ _ => nofun

theorem keeps_dispatchTransaction {transaction : Transaction} (h : V transaction) :
    (dispatchTransaction n transaction).Keeps (AddsOnly V) (RepliesOnly V) (ReturnsOnly V) :=
  (keeps_addTransaction h).bind fun _ _ => nofun

end Keeps

/-! ## Runs -/

namespace Node

/-- **The invariant of the runs** from a store: no account changed, and the tasks add and return
transactions only that are validated there. -/
structure Sound (P : Primitives) (storage : Db) (s : Node κ n) : Prop where
  accounts : ∀ address, getAccount s.storage address = getAccount storage address
  tasks : s.tasks.Sound (fun mempool => ∀ i, ∀ transaction ∈ mempool i,
      Validated P storage transaction)
    (AddsOnly (Validated P storage)) (RepliesOnly (Validated P storage))
    (ReturnsOnly (Validated P storage))

variable {storage : Db} {s : Node κ n}

/-- One event keeps the invariant, if what it delivers passes the checks. -/
theorem Sound.step (h : s.Sound P storage) {event : NodeEvent κ}
    (hchecked : GossipChecked P s event) : (s.step engine P event).Sound P storage := by
  cases event with
  | submit task hexTx =>
    rw [Node.step]
    split
    · exact h
    · rcases admitTransaction_cases engine (P := P) hexTx s.storage with
        ⟨e, hfail⟩ | ⟨transaction, call, after, -, hcheck, hok, -, hframe⟩
      · rw [hfail]
        exact h
      · rw [hok]
        refine ⟨fun address => (hframe.getAccount address).trans (h.accounts address), ?_⟩
        -- the check was made on the store before the call, which has the accounts of the start
        apply h.tasks.spawn
        apply keeps_enqueueTransaction
        exact (validated_of_checkTransaction hcheck).congr (h.accounts _).symm
  | gossip task data =>
    rw [Node.step]
    cases hdelivered : deliveredTransaction data with
    | none => exact h
    | some transaction =>
      refine ⟨h.accounts, h.tasks.spawn task (keeps_dispatchTransaction ?_)⟩
      exact (validated_iff.mpr (hchecked transaction hdelivered)).congr (h.accounts _).symm
  | propose task proposer proposerSecretKey previousBlockHash height timestamp maxTransactions =>
    rw [Node.step]
    split
    · exact h
    · refine ⟨h.accounts, h.tasks.spawn task ((keeps_takeForBlock maxTransactions).bind ?_)⟩
      rintro transactions htransactions block ⟨⟩
      exact htransactions
  | advance task => exact ⟨h.accounts, h.tasks.advance handle_only task⟩

/-- Every run keeps it. -/
theorem Sound.run (h : s.Sound P storage) {events : List (NodeEvent κ)}
    (hauthentic : GossipAuthentic engine P s events) : (s.run engine P events).Sound P storage := by
  induction events generalizing s with
  | nil => exact h
  | cons event events ih => exact ih (h.step hauthentic.1) hauthentic.2

omit [DecidableEq κ] [NeZero n] in
theorem Sound.onlyValidated (h : s.Sound P storage) : s.OnlyValidated P where
  mempool i transaction hmem := (h.tasks.state i transaction hmem).congr (h.accounts _)
  blocks block hblock transaction hmem :=
    (h.tasks.returned _ hblock block rfl transaction hmem).congr (h.accounts _)

/-- Whatever a message delivers enters the mempool. -/
theorem mem_mempool_of_gossip {s : Node κ n} {task : κ} (hidle : s.tasks.running task = none)
    {data : Bytes} {transaction : Transaction}
    (hdelivered : deliveredTransaction data = some transaction) :
    transaction ∈ (s.run engine P [.gossip task data, .advance task]).tasks.state
      (partitionForAddress n transaction.sender) := by
  -- the message starts a task, and the first command of the task adds the transaction
  have hgossip : s.step engine P (.gossip task data) =
      { s with tasks := { s.tasks with
        running := Function.update s.tasks.running task
          (some (dispatchTransaction n transaction)) } } := by
    rw [Node.step, hdelivered]
    show s.spawn task _ = _
    rw [Node.spawn, Tasks.spawn, hidle]
  show transaction ∈ ((s.step engine P (.gossip task data)).tasks.advance _ task).state _
  rw [hgossip, Tasks.advance]
  dsimp only
  rw [Function.update_self]
  show transaction ∈ Function.update s.tasks.state (partitionForAddress n transaction.sender)
    (s.tasks.state _ ++ [transaction]) _
  rw [Function.update_self]
  exact List.mem_append_right _ (List.mem_singleton_self _)

end Node

end Node

/-- **Only validated transactions come in.** In every run of requests, messages and proposals in any
interleaving, the mempool and the blocks have validated transactions only, if every transaction
that a message delivers passes the checks a request makes. No account changes in the run, so this
is so when a transaction enters and ever after. -/
theorem ingestion_validated (engine : WasmEngine) (P : Primitives) (κ : Type) [DecidableEq κ]
    (n : ℕ) [NeZero n] (storage : Db) (events : List (NodeEvent κ))
    (h : GossipAuthentic engine P (Node.start κ n storage) events) :
    let s := (Node.start κ n storage).run engine P events
    s.OnlyValidated P ∧ ∀ address, getAccount s.storage address = getAccount storage address := by
  intro s
  have hstart : (Node.start κ n storage).Sound P storage :=
    ⟨fun _ => rfl, ⟨fun _ => nofun, nofun, nofun⟩⟩
  have hrun : s.Sound P storage := hstart.run h
  exact ⟨hrun.onlyValidated, hrun.accounts⟩

/-! ## A forged transfer -/

/-- A message with a transaction delivers it. -/
theorem deliveredTransaction_toBytes {transaction : Transaction} {id : String}
    (hfits : Codec.Fits transaction)
    (hmessage : Codec.Fits (Network.Message.newTransaction ⟨id, serialize transaction⟩)) :
    deliveredTransaction (Network.Message.newTransaction ⟨id, serialize transaction⟩).toBytes =
      some transaction := by
  rw [deliveredTransaction, Network.Message.fromBytes_toBytes hmessage]
  dsimp only
  rw [deserialize_serialize hfits]
  rfl

/-- The message with a transaction, as the network carries it. -/
def gossipMessage (transaction : Transaction) : Bytes :=
  (Network.Message.newTransaction ⟨"tx-1", serialize transaction⟩).toBytes

theorem deliveredTransaction_signedTransfer :
    deliveredTransaction (gossipMessage signedTransfer) = some signedTransfer :=
  deliveredTransaction_toBytes fits_signedTransfer (Codec.fits_of_length (by decide +kernel))

/-- A run whose only message delivers the signed transfer. -/
theorem signedTransfer_gossip_validated :
    GossipAuthentic noEngine transferSignature (Node.start Unit 1 fundedDb)
        [.gossip () (gossipMessage signedTransfer), .advance ()] ∧
      let s := (Node.start Unit 1 fundedDb).run noEngine transferSignature
        [.gossip () (gossipMessage signedTransfer), .advance ()]
      s.OnlyValidated transferSignature ∧
        ∀ address, getAccount s.storage address = getAccount fundedDb address := by
  have hauthentic : GossipAuthentic noEngine transferSignature (Node.start Unit 1 fundedDb)
      [.gossip () (gossipMessage signedTransfer), .advance ()] := by
    refine ⟨fun transaction hdelivered => ?_, trivial, trivial⟩
    cases deliveredTransaction_signedTransfer.symm.trans hdelivered
    exact ⟨fundedAccount, authenticateTransaction_signedTransfer⟩
  exact ⟨hauthentic, ingestion_validated noEngine transferSignature Unit 1 fundedDb _ hauthentic⟩

/-- The transfer with a signature that nobody made. -/
def forgedTransfer : Transaction := { signedTransfer with signature := List.replicate 64 0xAA }

theorem deliveredTransaction_forgedTransfer :
    deliveredTransaction (gossipMessage forgedTransfer) = some forgedTransfer :=
  deliveredTransaction_toBytes (Codec.fits_of_length (by decide +kernel))
    (Codec.fits_of_length (by decide +kernel))

/-- **A forged transfer in the mempool**: a message delivers it, and nothing checks its
signature. -/
theorem forgedTransfer_enters :
    let s := (Node.start Unit 1 fundedDb).run noEngine transferSignature
      [.gossip () (gossipMessage forgedTransfer), .advance ()]
    forgedTransfer ∈ s.tasks.state (partitionForAddress 1 forgedTransfer.sender) ∧
      ¬ Validated transferSignature s.storage forgedTransfer := by
  refine ⟨Node.mem_mempool_of_gossip rfl deliveredTransaction_forgedTransfer, ?_⟩
  rintro ⟨-, ⟨key, hkey, hverify⟩, -⟩
  -- only one signature is recorded under the sender's key, and this is not it
  have hrecorded : key =
      beVector 32 0x8a88e3dd7409f195fd52db2d3cba5d72ca6709bf1d94121bf3748801b40f6f5c :=
    Subtype.ext hkey.symm
  rw [hrecorded] at hverify
  exact absurd hverify (by decide +kernel)

end Prims
