import Mathlib.Tactic.Abel
import Prims.Client.Commands

/-!
# Clients of one node

Any number of clients run commands against one node, and their requests come in any order. The node
may refuse a request because there are too many, a request may be lost on its way, and so may a
reply.

No command changes an account, so the transaction of a command is determined when the node starts:
it has the nonce after the one of its sender's account, whatever other commands are on their way.
The mempool gets the transactions of the commands that succeed, each of them once, and perhaps those
of commands whose last reply was lost.

## Main definitions

* `System`, `Event`, `System.step`: the node and its clients
* `Session.transaction`: the transaction of a command
* `Session.Follows`: the states of a command
* `System.Consistent`: the invariant of all interleavings

## Main results

* `System.Consistent.step`: one event keeps the invariant
* `commands_interleave_safely`: what holds after any events
-/

namespace Prims

open Bincode

/-! ## The system -/

/-- What becomes of a request: it is answered, refused by the rate limiter, lost, or answered with a
reply that is lost. -/
inductive Delivery where
  | served
  | limited
  | lost
  | replyLost
  deriving DecidableEq, Repr

/-- `RATE_LIMIT_EXCEEDED_CODE` -/
def rateLimitExceededCode : ℤ := -32029

/-- A command, and what is left of it. -/
structure Session where
  command : Command
  env : CliEnvironment
  rest : CliProgram TransactionSubmissionOutput

/-- A node and its clients. -/
structure System (n : ℕ) where
  node : RpcState n
  sessions : List Session := []

/-- A client starts a command, or one of the clients sends its next request. -/
inductive Event where
  | start (command : Command) (env : CliEnvironment)
  | request (index : ℕ) (delivery : Delivery)

section Sessions

variable (engine : WasmEngine) (P : Primitives) (normalizeJson : String → Option Bytes) {n : ℕ}
  [NeZero n]

/-- The node answers a request. -/
def RpcState.answer (s : RpcState n) : RpcRequest → RpcReply × RpcState n
  | .getBalance address =>
    match Rpc.getBalance s.storage address with
    | .ok response => (.balance response, s)
    | .error e => (.error e.code, s)
  | .sendTransaction hexTx =>
    match (sendTransaction engine P hexTx).run s with
    | (.ok response, s') => (.submission response, s')
    | (.error e, s') => (.error e.code, s')

def RpcState.deliver (s : RpcState n) (request : RpcRequest) : Delivery → RpcReply × RpcState n
  | .served => s.answer engine P request
  | .limited => (.error rateLimitExceededCode, s)
  | .lost => (.lost, s)
  | .replyLost => (.lost, (s.answer engine P request).2)

/-- A session sends its next request and goes on with the reply. -/
def Session.send (session : Session) (node : RpcState n) (delivery : Delivery) :
    Session × RpcState n :=
  match session.rest with
  | .done _ => (session, node)
  | .ask request next =>
    let (reply, node') := node.deliver engine P request delivery
    ({ session with rest := next reply }, node')

def System.step (s : System n) : Event → System n
  | .start command env =>
    { s with sessions := s.sessions ++ [⟨command, env, command.program P normalizeJson env⟩] }
  | .request index delivery =>
    match s.sessions[index]? with
    | none => s
    | some session =>
      let (session', node) := session.send engine P s.node delivery
      ⟨node, s.sessions.set index session'⟩

def System.run (s : System n) (events : List Event) : System n :=
  events.foldl (System.step engine P normalizeJson) s

/-! ## What a session does -/

/-- The transaction of a session, from the accounts of a store. -/
def Session.transaction (storage : Db) (session : Session) : Option Transaction := do
  let secretKey ← (session.command.key session.env).toOption
  let publicKey := P.publicKey secretKey
  let balance ← (Rpc.getBalance storage (encodeHex publicKey.toList)).toOption
  let draft ← (session.command.draft P normalizeJson publicKey).toOption
  return draft.transaction P secretKey (balance.nonce.saturatingAdd 1)

/-- The transaction of a session that succeeded. -/
def Session.accepted (storage : Db) (session : Session) : Option Transaction :=
  match session.rest with
  | .done (.ok _) => session.transaction P normalizeJson storage
  | _ => none

/-- The transaction of a session that got no reply. -/
def Session.unanswered (storage : Db) (session : Session) : Option Transaction :=
  match session.rest with
  | .done (.error .http) => session.transaction P normalizeJson storage
  | _ => none

/-- **The states of a session**, with the accounts of a store. -/
inductive Session.Follows (storage : Db) (session : Session) : Prop where
  | started (h : session.rest = session.command.program P normalizeJson session.env)
  | submitting (draft : Draft) (transaction : Transaction)
      (htransaction : session.transaction P normalizeJson storage = some transaction)
      (hfits : Codec.Fits transaction)
      (h : session.rest = submission session.env draft transaction)
  | failed (e : CliError) (h : session.rest = Interaction.done (.error e))
  | succeeded (draft : Draft) (transaction : Transaction) (response : RpcSendTransactionResponse)
      (call : Option ContractCallPayload)
      (htransaction : session.transaction P normalizeJson storage = some transaction)
      (hcheck : checkTransaction P storage transaction = .ok call)
      (hhash : response.txHash = encodeHex (hashTransaction P transaction).toList)
      (h : session.rest = Interaction.done (.ok (draft.output session.env transaction response)))

/-- A command whose arguments are shorter than `2 ^ 64` in all their parts. -/
def Command.InMemory (command : Command) : Prop :=
  ∀ publicKey draft, command.draft P normalizeJson publicKey = .ok draft →
    Codec.Fits draft.recipient ∧ Codec.Fits draft.data

/-- An event that starts a command with such arguments, or no command. -/
def Event.InMemory : Event → Prop
  | .start command _ => command.InMemory P normalizeJson
  | .request _ _ => True

variable {engine} {P} {normalizeJson} {storage : Db}

/-- The transaction of a draft fits when the draft does. -/
theorem fits_draft_transaction {draft : Draft} (hrecipient : Codec.Fits draft.recipient)
    (hdata : Codec.Fits draft.data) (secretKey : Bytes32) (nonce : UInt64) :
    Codec.Fits (draft.transaction P secretKey nonce) := by
  have hsender : Codec.Fits (P.publicKey secretKey).toList :=
    ⟨by rw [List.Vector.toList_length]; decide, fun _ _ => trivial⟩
  have hsignature : ∀ signature : Bytes64, Codec.Fits signature.toList :=
    fun signature => ⟨by rw [List.Vector.toList_length]; decide, fun _ _ => trivial⟩
  refine ⟨?_, hsender, hrecipient, trivial, trivial, trivial, trivial, trivial, hsignature _, hdata⟩
  show Codec.Fits draft.txType
  cases draft.txType <;> trivial

/-- The balance is read from the account. -/
theorem getBalance_congr {storage' : Db}
    (h : ∀ address, getAccount storage' address = getAccount storage address) (text : String) :
    Rpc.getBalance storage' text = Rpc.getBalance storage text := by
  simp only [Rpc.getBalance, h]

variable (engine) (P) in
/-- A request for a balance changes nothing, and a balance in the reply is right. -/
theorem deliver_getBalance (node : RpcState n) (address : String) (delivery : Delivery) :
    (node.deliver engine P (.getBalance address) delivery).2 = node ∧
      ∀ balance, (node.deliver engine P (.getBalance address) delivery).1.result
        RpcReply.getBalance = .ok balance → Rpc.getBalance node.storage address = .ok balance := by
  have hanswer : (node.answer engine P (.getBalance address)).2 = node ∧
      ∀ balance, (node.answer engine P (.getBalance address)).1.result RpcReply.getBalance =
        .ok balance → Rpc.getBalance node.storage address = .ok balance := by
    rw [RpcState.answer]
    cases Rpc.getBalance node.storage address with
    | error e => exact ⟨rfl, nofun⟩
    | ok response => exact ⟨rfl, fun balance h => congrArg Except.ok (Except.ok.inj h)⟩
  cases delivery with
  | served => exact hanswer
  | replyLost => exact ⟨hanswer.1, nofun⟩
  | limited | lost => exact ⟨rfl, nofun⟩

variable (engine) (P) in
/-- A submission that the node answers. -/
theorem answer_sendTransaction (node : RpcState n) {transaction : Transaction}
    (hfits : Codec.Fits transaction) :
    (∃ code, node.answer engine P (.sendTransaction (encodeHex (serialize transaction))) =
        (.error code, node)) ∨
      ∃ response call after, node.answer engine P
          (.sendTransaction (encodeHex (serialize transaction))) = (.submission response, after) ∧
        checkTransaction P node.storage transaction = .ok call ∧
        response.txHash = encodeHex (hashTransaction P transaction).toList ∧
        after.mempool.contents = transaction ::ₘ node.mempool.contents ∧
        ∀ address, getAccount after.storage address = getAccount node.storage address := by
  rw [RpcState.answer]
  rcases sendTransaction_cases engine (P := P) (encodeHex (serialize transaction)) node with
    ⟨e, hrun⟩ | ⟨response, after, transaction', hrun, haccepts⟩
  · rw [hrun]
    exact .inl ⟨e.code, rfl⟩
  · cases (decodeTransaction_encodeHex hfits).symm.trans haccepts.decoded
    obtain ⟨call, hcheck⟩ := haccepts.checked
    rw [hrun]
    refine .inr ⟨response, call, after, rfl, hcheck, haccepts.txHash, ?_,
      haccepts.frame.getAccount⟩
    rw [haccepts.mempool, Mempool.contents_added]

variable (P) (normalizeJson) in
/-- **What sending a request does.** Nothing changes an account. The mempool gets the transaction of
a session that succeeds now, and it may get the one of a session whose last reply is lost now. -/
structure Session.Sends (storage : Db) (session : Session) (node : RpcState n)
    (delivery : Delivery) (session' : Session) (node' : RpcState n) : Prop where
  command : session'.command = session.command
  follows : session'.Follows P normalizeJson storage
  accounts : ∀ address, getAccount node'.storage address = getAccount node.storage address
  contents : ∃ lost : Multiset Transaction,
    node'.mempool.contents + (session.accepted P normalizeJson storage).toList =
        node.mempool.contents + (session'.accepted P normalizeJson storage).toList + lost ∧
      lost + (session.unanswered P normalizeJson storage).toList ≤
        (session'.unanswered P normalizeJson storage).toList ∧
      (delivery ≠ .replyLost → lost = 0)

variable {session : Session} {node : RpcState n} {delivery : Delivery}

/-- A session that is over sends nothing. -/
theorem Session.sends_of_done {result : Except CliError TransactionSubmissionOutput}
    (hfollows : session.Follows P normalizeJson storage)
    (h : session.rest = Interaction.done result) :
    session.Sends P normalizeJson storage node delivery (session.send engine P node delivery).1
      (session.send engine P node delivery).2 := by
  have hsend : session.send engine P node delivery = (session, node) := by
    rw [Session.send, h]
  rw [hsend]
  exact ⟨rfl, hfollows, fun _ => rfl, 0, by simp, by simp, fun _ => rfl⟩

omit [NeZero n] in
/-- A session that goes on to a state from which nothing was accepted, on a node that stays. -/
theorem Session.sends_of_unchanged {rest : CliProgram TransactionSubmissionOutput}
    {request : RpcRequest} {next : RpcReply → CliProgram TransactionSubmissionOutput}
    (h : session.rest = Interaction.ask request next)
    (hfollows : { session with rest }.Follows P normalizeJson storage)
    (hrest : { session with rest }.accepted P normalizeJson storage = none) :
    session.Sends P normalizeJson storage node delivery { session with rest } node := by
  have haccepted : session.accepted P normalizeJson storage = none := by
    rw [Session.accepted, h]
  have hunanswered : session.unanswered P normalizeJson storage = none := by
    rw [Session.unanswered, h]
  refine ⟨rfl, hfollows, fun _ => rfl, 0, ?_, ?_, fun _ => rfl⟩
  · rw [haccepted, hrest]
    simp
  · rw [hunanswered]
    exact Multiset.zero_le _

/-- The first request of a session. -/
theorem Session.sends_of_started (h : session.rest =
      session.command.program P normalizeJson session.env)
    (hmemory : session.command.InMemory P normalizeJson)
    (haccounts : ∀ address, getAccount node.storage address = getAccount storage address) :
    session.Sends P normalizeJson storage node delivery (session.send engine P node delivery).1
      (session.send engine P node delivery).2 := by
  have hprogram := h
  rw [Command.program_eq] at h
  cases hkey : session.command.key session.env with
  | error e =>
    rw [hkey] at h
    exact sends_of_done (.started hprogram) h
  | ok secretKey =>
    rw [hkey] at h
    dsimp only at h
    let request := RpcRequest.getBalance (encodeHex (P.publicKey secretKey).toList)
    obtain ⟨hnode, hbalance⟩ := deliver_getBalance engine P node
      (encodeHex (P.publicKey secretKey).toList) delivery
    let reply := (node.deliver engine P request delivery).1
    have hsend : session.send engine P node delivery =
        (⟨session.command, session.env,
          session.command.afterBalance P normalizeJson session.env secretKey reply⟩, node) := by
      rw [Session.send, h]
      exact Prod.ext rfl hnode
    rw [hsend, Command.afterBalance]
    cases hresult : reply.result RpcReply.getBalance with
    | error e => exact sends_of_unchanged h (.failed e rfl) rfl
    | ok balance =>
      dsimp only
      cases hdraft : session.command.draft P normalizeJson (P.publicKey secretKey) with
      | error e => exact sends_of_unchanged h (.failed e rfl) rfl
      | ok draft =>
        obtain ⟨hrecipient, hdata⟩ := hmemory _ draft hdraft
        refine sends_of_unchanged h (.submitting draft _ ?_
          (fits_draft_transaction hrecipient hdata _ _) rfl) rfl
        have hread := hbalance balance hresult
        rw [getBalance_congr haccounts] at hread
        rw [Session.transaction, hkey]
        show (do
          let balance ← (Rpc.getBalance storage (encodeHex (P.publicKey secretKey).toList)).toOption
          _) = _
        rw [hread]
        show (do
          let draft ← (session.command.draft P normalizeJson (P.publicKey secretKey)).toOption
          _) = _
        rw [hdraft]
        rfl

/-- The last request of a session. -/
theorem Session.sends_of_submitting {draft : Draft} {transaction : Transaction}
    (htransaction : session.transaction P normalizeJson storage = some transaction)
    (hfits : Codec.Fits transaction) (h : session.rest = submission session.env draft transaction)
    (haccounts : ∀ address, getAccount node.storage address = getAccount storage address) :
    session.Sends P normalizeJson storage node delivery (session.send engine P node delivery).1
      (session.send engine P node delivery).2 := by
  let request := RpcRequest.sendTransaction (encodeHex (serialize transaction))
  let next := fun reply : RpcReply =>
    (Interaction.done ((reply.result RpcReply.getSubmission).map
      (draft.output session.env transaction)) : CliProgram TransactionSubmissionOutput)
  have hsend : session.send engine P node delivery =
      (⟨session.command, session.env, next (node.deliver engine P request delivery).1⟩,
        (node.deliver engine P request delivery).2) := by
    rw [Session.send, h]
    rfl
  have haccepted : session.accepted P normalizeJson storage = none := by
    rw [Session.accepted, h]
    rfl
  have hunanswered : session.unanswered P normalizeJson storage = none := by
    rw [Session.unanswered, h]
    rfl
  -- whatever the node did, the reply does not come
  have hlost : ∀ {after : RpcState n}, delivery = .replyLost →
      (∀ address, getAccount after.storage address = getAccount node.storage address) →
      after.mempool.contents = transaction ::ₘ node.mempool.contents →
      session.Sends P normalizeJson storage node delivery
        ⟨session.command, session.env, next .lost⟩ after := by
    rintro after rfl haccounts' hcontents
    refine ⟨rfl, .failed .http rfl, haccounts', {transaction}, ?_, ?_, absurd rfl⟩
    · have haccepted' : Session.accepted P normalizeJson storage
          ⟨session.command, session.env, next .lost⟩ = none := rfl
      rw [haccepted, haccepted', hcontents, Option.toList_none, Multiset.coe_nil, add_zero,
        add_zero, add_comm, Multiset.singleton_add]
    · have htransaction' : (Session.unanswered P normalizeJson storage
          ⟨session.command, session.env, next .lost⟩) = some transaction := htransaction
      rw [hunanswered, htransaction']
      exact le_rfl
  have hunchanged : ∀ e, session.Sends P normalizeJson storage node delivery
      ⟨session.command, session.env, .done (.error e)⟩ node :=
    fun e => sends_of_unchanged h (.failed e rfl) rfl
  rw [hsend]
  rcases answer_sendTransaction engine P node hfits with
    ⟨code, hanswer⟩ | ⟨response, call, after, hanswer, hcheck, hhash, hcontents, haccounts'⟩
  · cases delivery with
    | served =>
      rw [RpcState.deliver, hanswer]
      exact hunchanged (.rpc code)
    | limited => exact hunchanged (.rpc rateLimitExceededCode)
    | lost => exact hunchanged .http
    | replyLost =>
      rw [RpcState.deliver, hanswer]
      exact hunchanged .http
  · cases delivery with
    | limited => exact hunchanged (.rpc rateLimitExceededCode)
    | lost => exact hunchanged .http
    | replyLost =>
      rw [RpcState.deliver, hanswer]
      exact hlost rfl haccounts' hcontents
    | served =>
      rw [RpcState.deliver, hanswer]
      rw [checkTransaction_congr (haccounts _)] at hcheck
      refine ⟨rfl, .succeeded draft transaction response call htransaction hcheck hhash rfl,
        haccounts', 0, ?_, ?_, fun _ => rfl⟩
      · have htransaction' : (Session.accepted P normalizeJson storage
            ⟨session.command, session.env, next (.submission response)⟩) = some transaction :=
          htransaction
        rw [haccepted, htransaction', hcontents, Option.toList_none, Option.toList_some,
          Multiset.coe_nil, Multiset.coe_singleton, add_zero, add_zero, add_comm,
          Multiset.singleton_add]
      · rw [hunanswered]
        exact Multiset.zero_le _

variable (engine) in
/-- **One request of a session.** -/
theorem Session.Follows.send (hfollows : session.Follows P normalizeJson storage)
    (hmemory : session.command.InMemory P normalizeJson)
    (haccounts : ∀ address, getAccount node.storage address = getAccount storage address)
    (delivery : Delivery) :
    session.Sends P normalizeJson storage node delivery (session.send engine P node delivery).1
      (session.send engine P node delivery).2 := by
  cases id hfollows with
  | started h => exact sends_of_started h hmemory haccounts
  | submitting draft transaction htransaction hfits h =>
    exact sends_of_submitting htransaction hfits h haccounts
  | failed e h => exact sends_of_done hfollows h
  | succeeded draft transaction response call htransaction hcheck hhash h =>
    exact sends_of_done hfollows h

/-! ## All interleavings -/

variable (P) (normalizeJson) in
/-- **The invariant of all interleavings.** -/
structure System.Consistent (initial : RpcState n) (reliable : Prop) (s : System n) : Prop where
  accounts : ∀ address, getAccount s.node.storage address = getAccount initial.storage address
  follows : ∀ session ∈ s.sessions, session.Follows P normalizeJson initial.storage
  memory : ∀ session ∈ s.sessions, session.command.InMemory P normalizeJson
  contents : ∃ lost : Multiset Transaction,
    s.node.mempool.contents = initial.mempool.contents +
        (s.sessions.filterMap (Session.accepted P normalizeJson initial.storage) + lost) ∧
      lost ≤ s.sessions.filterMap (Session.unanswered P normalizeJson initial.storage) ∧
      (reliable → lost = 0)

/-- What is picked from a list before and after one of its elements is replaced. -/
theorem exists_filterMap_set {α β : Type} {l : List α} {i : ℕ} {a : α} (h : l[i]? = some a)
    (f : α → Option β) (b : α) : ∃ rest : Multiset β,
      (l.filterMap f : Multiset β) = (f a).toList + rest ∧
        ((l.set i b).filterMap f : Multiset β) = (f b).toList + rest := by
  obtain ⟨hi, rfl⟩ := List.getElem?_eq_some_iff.mp h
  have hpick : ∀ c, (((l.take i ++ c :: l.drop (i + 1)).filterMap f : List β) : Multiset β) =
      (f c).toList + (((l.take i ++ l.drop (i + 1)).filterMap f : List β) : Multiset β) := by
    intro c
    have hmiddle : (l.take i ++ c :: l.drop (i + 1)).Perm (c :: (l.take i ++ l.drop (i + 1))) :=
      List.perm_middle
    rw [Multiset.coe_eq_coe.mpr (hmiddle.filterMap f), Multiset.coe_add, List.filterMap_cons]
    cases f c <;> rfl
  refine ⟨(l.take i ++ l.drop (i + 1)).filterMap f, ?_, ?_⟩
  · conv_lhs => rw [← List.take_append_drop i l, ← List.getElem_cons_drop hi]
    exact hpick _
  · rw [List.set_eq_take_append_cons_drop, if_pos hi]
    exact hpick b

/-- A new session has submitted nothing. -/
theorem Session.accepted_program (command : Command) (env : CliEnvironment) :
    Session.accepted P normalizeJson storage ⟨command, env, command.program P normalizeJson env⟩ =
      none := by
  rw [Session.accepted, Command.program_eq]
  cases command.key env <;> rfl

/-- The request or the reply of an event is not lost after the node has seen it. -/
def Event.ReplyArrives : Event → Prop
  | .request _ .replyLost => False
  | _ => True

variable {initial : RpcState n} {reliable : Prop} {s : System n}

theorem System.Consistent.start (h : s.Consistent P normalizeJson initial reliable)
    {command : Command} (hmemory : command.InMemory P normalizeJson) (env : CliEnvironment) :
    (s.step engine P normalizeJson (.start command env)).Consistent P normalizeJson initial
      reliable := by
  obtain ⟨lost, hcontents, hlost, hreliable⟩ := h.contents
  refine ⟨h.accounts, ?_, ?_, lost, ?_, ?_, hreliable⟩
  · intro session hsession
    rcases List.mem_append.mp hsession with hsession | hsession
    · exact h.follows session hsession
    · rw [List.mem_singleton.mp hsession]
      exact .started rfl
  · intro session hsession
    rcases List.mem_append.mp hsession with hsession | hsession
    · exact h.memory session hsession
    · rw [List.mem_singleton.mp hsession]
      exact hmemory
  · rw [System.step, List.filterMap_append,
      List.filterMap_cons_none (Session.accepted_program command env), List.filterMap_nil,
      List.append_nil]
    exact hcontents
  · rw [System.step, List.filterMap_append, ← Multiset.coe_add]
    exact hlost.trans (Multiset.le_add_right _ _)

theorem System.Consistent.request (h : s.Consistent P normalizeJson initial reliable)
    (index : ℕ) (delivery : Delivery) :
    (s.step engine P normalizeJson (.request index delivery)).Consistent P normalizeJson initial
      (reliable ∧ delivery ≠ .replyLost) := by
  obtain ⟨lost, hcontents, hlost, hreliable⟩ := h.contents
  rw [System.step]
  cases hindex : s.sessions[index]? with
  | none =>
    exact ⟨h.accounts, h.follows, h.memory, lost, hcontents, hlost, fun hr => hreliable hr.1⟩
  | some session =>
    have hmem := List.mem_of_getElem? hindex
    have hsends := (h.follows session hmem).send engine (h.memory session hmem)
      h.accounts delivery
    dsimp only
    generalize session.send engine P s.node delivery = sent at hsends ⊢
    obtain ⟨session', node⟩ := sent
    obtain ⟨lost', hcontents', hlost', hreliable'⟩ := hsends.contents
    have hreplaced : ∀ {p : Session → Prop}, (∀ session ∈ s.sessions, p session) → p session' →
        ∀ session ∈ s.sessions.set index session', p session := by
      intro p hall hp session hsession
      rcases List.mem_or_eq_of_mem_set hsession with hsession | rfl
      · exact hall session hsession
      · exact hp
    refine ⟨fun address => (hsends.accounts address).trans (h.accounts address),
      hreplaced h.follows hsends.follows, hreplaced h.memory ?_, lost + lost', ?_, ?_, ?_⟩
    · exact hsends.command ▸ h.memory session hmem
    · obtain ⟨others, hbefore, hafter⟩ := exists_filterMap_set hindex
        (Session.accepted P normalizeJson initial.storage) session'
      rw [hbefore] at hcontents
      rw [hafter]
      apply add_right_cancel (b := ((session.accepted P normalizeJson initial.storage).toList :
        Multiset Transaction))
      rw [hcontents', hcontents]
      abel
    · obtain ⟨others, hbefore, hafter⟩ := exists_filterMap_set hindex
        (Session.unanswered P normalizeJson initial.storage) session'
      rw [hbefore] at hlost
      rw [hafter]
      calc lost + lost' ≤ (session.unanswered P normalizeJson initial.storage).toList + others +
            lost' := add_le_add_left hlost lost'
        _ = lost' + (session.unanswered P normalizeJson initial.storage).toList + others := by abel
        _ ≤ (session'.unanswered P normalizeJson initial.storage).toList + others :=
          add_le_add_left hlost' others
    · rintro ⟨hr, hdelivery⟩
      rw [hreliable hr, hreliable' hdelivery, add_zero]

omit [NeZero n] in
theorem System.Consistent.mono {reliable' : Prop}
    (h : s.Consistent P normalizeJson initial reliable) (himp : reliable' → reliable) :
    s.Consistent P normalizeJson initial reliable' := by
  obtain ⟨lost, hcontents, hlost, hreliable⟩ := h.contents
  exact ⟨h.accounts, h.follows, h.memory, lost, hcontents, hlost, fun hr => hreliable (himp hr)⟩

variable (engine) in
/-- **One event** keeps the invariant. -/
theorem System.Consistent.step (h : s.Consistent P normalizeJson initial reliable) {event : Event}
    (hmemory : event.InMemory P normalizeJson) :
    (s.step engine P normalizeJson event).Consistent P normalizeJson initial
      (reliable ∧ event.ReplyArrives) := by
  cases event with
  | start command env => exact (h.start hmemory env).mono And.left
  | request index delivery =>
    refine (h.request index delivery).mono fun hr => ⟨hr.1, ?_⟩
    rintro rfl
    exact hr.2

/-- **The invariant holds after any events.** -/
theorem System.Consistent.run (initial : RpcState n) {events : List Event}
    (hmemory : ∀ event ∈ events, event.InMemory P normalizeJson) :
    (System.run engine P normalizeJson { node := initial } events).Consistent P normalizeJson
      initial (∀ event ∈ events, event.ReplyArrives) := by
  induction events using List.reverseRecOn with
  | nil => exact ⟨fun _ => rfl, nofun, nofun, 0, (add_zero _).symm, le_rfl, fun _ => rfl⟩
  | append_singleton events event ih =>
    have hbefore := ih fun e he => hmemory e (List.mem_append_left _ he)
    have hafter := hbefore.step engine
      (hmemory event (List.mem_append_right _ (List.mem_singleton_self event)))
    rw [System.run, List.foldl_concat]
    refine hafter.mono fun hall => ⟨fun e he => hall e (List.mem_append_left _ he), ?_⟩
    exact hall event (List.mem_append_right _ (List.mem_singleton_self event))

/-- The transaction of a session has the nonce after the one of its sender's account. -/
theorem Session.nonce_of_transaction {transaction : Transaction} {account : Account}
    (h : session.transaction P normalizeJson storage = some transaction)
    (haccount : getAccount storage transaction.sender = .ok (some account)) :
    transaction.nonce = account.nonce.saturatingAdd 1 := by
  simp only [Session.transaction, Option.bind_eq_bind, Option.bind_eq_some_iff,
    Except.toOption_eq_some, Option.pure_def, Option.some.injEq] at h
  obtain ⟨secretKey, -, balance, hbalance, draft, -, rfl⟩ := h
  rw [Rpc.getBalance, decodeHex_encodeHex] at hbalance
  have hread : getAccount storage (P.publicKey secretKey).toList = .ok (some account) := haccount
  change ((getAccount storage (P.publicKey secretKey).toList).mapError _ >>= fun account => _) = _
    at hbalance
  rw [hread] at hbalance
  obtain rfl := Except.ok.inj hbalance
  rfl

/-- A transaction that passes its checks has a nonce above the one of its sender's account. -/
theorem exists_account_of_checkTransaction {transaction : Transaction}
    {call : Option ContractCallPayload}
    (h : checkTransaction P storage transaction = .ok call) : ∃ account,
      getAccount storage transaction.sender = .ok (some account) ∧
        account.nonce < transaction.nonce := by
  rw [checkTransaction, Except.bind_eq_ok] at h
  obtain ⟨senderAccount, hauthentic, htype⟩ := h
  obtain ⟨-, -, haccount, hnonce⟩ := authenticateTransaction_eq_ok.mp hauthentic
  cases senderAccount with
  | none => exact absurd (Except.mapError_eq_ok.mp htype) (validateTransactionType_none _ _)
  | some account => exact ⟨account, haccount, ensure_eq_ok.mp hnonce⟩

/-- **Clients do not disturb one another.** Whatever commands are started and in whatever order
their requests are answered, refused or lost: no account changes; the mempool gets the transactions
of the commands that succeed, each of them once, and beyond them only transactions of commands whose
last reply was lost; and a command that succeeds has printed the hash of its transaction, which has
the nonce after the one of the account. -/
theorem commands_interleave_safely (engine : WasmEngine) (P : Primitives)
    (normalizeJson : String → Option Bytes) {n : ℕ} [NeZero n] (initial : RpcState n)
    (events : List Event) (hmemory : ∀ event ∈ events, event.InMemory P normalizeJson) :
    let s := System.run engine P normalizeJson { node := initial } events
    (∀ address, getAccount s.node.storage address = getAccount initial.storage address) ∧
    (∃ lost : Multiset Transaction,
      s.node.mempool.contents = initial.mempool.contents +
          (s.sessions.filterMap (Session.accepted P normalizeJson initial.storage) + lost) ∧
        lost ≤ s.sessions.filterMap (Session.unanswered P normalizeJson initial.storage) ∧
        ((∀ event ∈ events, event.ReplyArrives) → lost = 0)) ∧
    ∀ session ∈ s.sessions, ∀ output, session.rest = Interaction.done (.ok output) →
      ∃ transaction account,
        session.transaction P normalizeJson initial.storage = some transaction ∧
        output.txHash = encodeHex (hashTransaction P transaction).toList ∧
        output.nonce = transaction.nonce ∧
        getAccount initial.storage transaction.sender = .ok (some account) ∧
        transaction.nonce.toNat = account.nonce.toNat + 1 := by
  intro s
  have hs : s.Consistent P normalizeJson initial (∀ event ∈ events, event.ReplyArrives) :=
    System.Consistent.run initial hmemory
  refine ⟨hs.accounts, hs.contents, fun session hsession output houtput => ?_⟩
  cases hs.follows session hsession with
  | started h =>
    rw [h, Command.program_eq] at houtput
    cases hkey : session.command.key session.env with
    | error e =>
      rw [hkey] at houtput
      cases houtput
    | ok secretKey =>
      rw [hkey] at houtput
      cases houtput
  | submitting draft transaction htransaction hfits h => cases h.symm.trans houtput
  | failed e h => cases h.symm.trans houtput
  | succeeded draft transaction response call htransaction hcheck hhash h =>
    cases h.symm.trans houtput
    obtain ⟨account, haccount, hlt⟩ := exists_account_of_checkTransaction hcheck
    refine ⟨transaction, account, htransaction, hhash, rfl, haccount, ?_⟩
    have hnonce := Session.nonce_of_transaction htransaction haccount
    rw [hnonce, UInt64.lt_iff_toNat_lt, UInt64.toNat_saturatingAdd] at hlt
    rw [hnonce, UInt64.toNat_saturatingAdd]
    have hone : (1 : UInt64).toNat = 1 := rfl
    have hbound := account.nonce.toNat_lt
    omega

end Sessions

/-! ## Two clients with one key -/

def unstakeEnv : CliEnvironment := ⟨"http://127.0.0.1:7002", .ok (.replicate 32 1)⟩

/-- Two clients unstake with one key at the same time, and one reply is lost. -/
def twoUnstakes : List Event :=
  [.start .unstake unstakeEnv, .start .unstake unstakeEnv, .request 0 .served, .request 1 .served,
    .request 0 .served, .request 1 .replyLost]

theorem inMemory_unstake (P : Primitives) (normalizeJson : String → Option Bytes) :
    Command.unstake.InMemory P normalizeJson := by
  rintro publicKey draft hdraft
  obtain rfl := Except.ok.inj hdraft
  refine ⟨⟨by rw [List.Vector.toList_length]; decide, fun _ _ => trivial⟩, ?_⟩
  intro data hdata
  obtain rfl := Option.some.inj hdata
  exact Codec.fits_of_length (by decide)

theorem twoUnstakes_interleave :
    let s := System.run noEngine transferSignature (fun _ => none) { node := fundedNode }
      twoUnstakes
    (∀ address, getAccount s.node.storage address = getAccount fundedDb address) ∧
    ∃ lost : Multiset Transaction,
      s.node.mempool.contents = fundedNode.mempool.contents +
          (s.sessions.filterMap (Session.accepted transferSignature (fun _ => none) fundedDb) +
            lost) ∧
        lost ≤ s.sessions.filterMap
          (Session.unanswered transferSignature (fun _ => none) fundedDb) := by
  have hsafe := commands_interleave_safely noEngine transferSignature (fun _ => none) fundedNode
    twoUnstakes fun event hevent => by
      simp only [twoUnstakes, List.mem_cons, List.not_mem_nil, or_false] at hevent
      rcases hevent with rfl | rfl | rfl | rfl | rfl | rfl
      · exact inMemory_unstake _ _
      · exact inMemory_unstake _ _
      all_goals trivial
  obtain ⟨haccounts, ⟨lost, hcontents, hlost, -⟩, -⟩ := hsafe
  exact ⟨haccounts, lost, hcontents, hlost⟩

end Prims
