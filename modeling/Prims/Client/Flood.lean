import Prims.Client.Acceptance
import Prims.Lib.Retry
import Prims.Network.Publishing

/-!
# The flood command

The load test of the client joins the network and publishes signed transfers of a fresh key, with
one nonce after the other. A transfer that cannot be published is tried again, up to twenty times
while nobody is subscribed to the topic and up to two hundred times while the queues of the peers
are full. Any other failure ends the command.

## Main definitions

* `floodTransaction`, `floodMessages`: the transfers, and what is published of them
* `floodPolicy`: the failures that are retried
* `flood`: the command

## Main results

* `flood_publishes_in_order`: what the command has published, whatever the network answers
-/

namespace Prims

open Bincode

/-- What gossipsub answers: the message is published, or the text of an error. -/
abbrev PublishReply := Except String Unit

/-- Why the command ends before it publishes anything. -/
inductive FloodError where
  | zeroCount
  | noSeedNodes
  | nodeNotStarted
  | notConnected
  deriving DecidableEq, Repr

/-- What the command takes from its environment: the seed nodes of the configuration, whether the
node starts and a connection comes about in time, and the keys that are generated. -/
structure FloodEnvironment where
  seedNodes : List String
  started : Bool
  connected : Bool
  senderKey : Bytes32
  recipientKey : UInt64 → Bytes32

/-- `text.contains(part)` -/
def mentions (text part : String) : Bool := part.toList <:+: text.toList

/-- **The failures that are retried**, by the text of the error. -/
def floodPolicy : RetryPolicy String where
  allows text attempts :=
    (mentions text "NoPeersSubscribedToTopic" && attempts < 20) ||
      (mentions text "AllQueuesFull" && attempts < 200)
  limit := 200
  lt_limit := by
    intro text attempts h
    simp only [Bool.or_eq_true, Bool.and_eq_true, decide_eq_true_eq] at h
    omega

section Flood

variable (P : Primitives) (env : FloodEnvironment) (count startNonce amount : UInt64)

/-- `0..count` -/
def floodOffsets : List UInt64 := (List.range count.toNat).map UInt64.ofNat

/-- The nonce wraps after the last word. -/
def floodTransaction (offset : UInt64) : Transaction :=
  let nonce := startNonce + offset
  let draft : Draft :=
    { txType := .transfer
      recipient := (P.publicKey (env.recipientKey offset)).toList
      amount
      data := some (utf8 ("load-test-" ++ toString nonce.toNat)) }
  draft.transaction P env.senderKey nonce

def floodTransactions : List Transaction :=
  (floodOffsets count).map (floodTransaction P env startNonce amount)

/-- The topic and the bytes of the transfers, in order. -/
def floodMessages : List (String × Bytes) :=
  (floodTransactions P env count startNonce amount).map (publishTransaction P)

/-- The program that publishes, when the command gets so far. -/
def flood (seedNodes : List String) :
    Except FloodError (Interaction (String × Bytes) PublishReply PublishReply) := do
  ensure (count ≠ 0) .zeroCount
  -- the seed nodes of the command line go before those of the configuration
  ensure ((if seedNodes = [] then env.seedNodes else seedNodes) ≠ []) .noSeedNodes
  ensure env.started .nodeNotStarted
  ensure env.connected .notConnected
  return sendAll floodPolicy (floodMessages P env count startNonce amount)

variable {P env count startNonce amount}

theorem flood_eq_ok {seedNodes : List String}
    {program : Interaction (String × Bytes) PublishReply PublishReply}
    (h : flood P env count startNonce amount seedNodes = .ok program) :
    program = sendAll floodPolicy (floodMessages P env count startNonce amount) := by
  rw [flood, ensure_bind_eq_ok, ensure_bind_eq_ok, ensure_bind_eq_ok, ensure_bind_eq_ok] at h
  exact (Except.ok.inj h.2.2.2.2).symm

theorem length_floodMessages :
    (floodMessages P env count startNonce amount).length = count.toNat := by
  rw [floodMessages, floodTransactions, floodOffsets, List.length_map, List.length_map,
    List.length_map, List.length_range]

/-- No offset comes twice, so no nonce does, even where it wraps. -/
theorem nodup_floodTransactions :
    ((floodTransactions P env count startNonce amount).map Transaction.nonce).Nodup := by
  rw [floodTransactions, List.map_map, floodOffsets, List.map_map]
  apply List.Nodup.map_on _ List.nodup_range
  intro i hi j hj h
  have hoffset : UInt64.ofNat i = UInt64.ofNat j := by
    have hnonce : startNonce + UInt64.ofNat i = startNonce + UInt64.ofNat j := h
    exact (UInt64.add_right_inj startNonce).mp hnonce
  have hlt : ∀ n ∈ List.range count.toNat, (UInt64.ofNat n).toNat = n := fun n hn =>
    UInt64.toNat_ofNat_of_lt' ((List.mem_range.mp hn).trans count.toNat_lt)
  rw [← hlt i hi, ← hlt j hj, hoffset]

/-- Every transfer is signed by its sender. -/
theorem verifyTransaction_flood (hP : P.AcceptsOwnSignatures) {transaction : Transaction}
    (h : transaction ∈ floodTransactions P env count startNonce amount) :
    transaction.sender = (P.publicKey env.senderKey).toList ∧
      verifyTransaction P transaction (P.publicKey env.senderKey) = .ok true := by
  obtain ⟨offset, -, rfl⟩ := List.mem_map.mp h
  exact ⟨rfl, verifyTransaction_draft hP _ _ _⟩

/-! ## The size of a transfer -/

theorem length_serialize_transaction (transaction : Transaction) :
    (serialize transaction).length = (serialize transaction.txType).length +
      (8 + transaction.sender.length) + (8 + transaction.recipient.length) + 28 +
      (8 + transaction.signature.length) + (serialize transaction.data).length := by
  show (serialize (transaction.txType, transaction.sender, transaction.recipient,
    transaction.amount, transaction.fee, transaction.nonce, transaction.sourceShard,
    transaction.destinationShard, transaction.signature, transaction.data)).length = _
  simp only [length_serialize_prod, length_serialize_bytes, length_serialize_uint64,
    length_serialize_uint16]
  omega

/-- A word has at most twenty digits. -/
theorem length_utf8_loadTest (nonce : UInt64) :
    (utf8 ("load-test-" ++ toString nonce.toNat)).length ≤ 30 := by
  have hdigits : (Nat.toDigits 10 nonce.toNat).length ≤ 20 := by
    rw [Nat.length_toDigits_le_iff (by decide) (by decide)]
    exact nonce.toNat_lt.trans (by decide)
  have hone : ∀ c ∈ Nat.toDigits 10 nonce.toNat, c.utf8Size = 1 := by
    intro c hc
    have hdigit : c.isDigit := Nat.isDigit_of_mem_toDigits (by decide) (by decide) hc
    rw [Char.isDigit, Bool.and_eq_true, decide_eq_true_eq, decide_eq_true_eq] at hdigit
    exact Char.utf8Size_eq_one_iff.mpr (UInt32.le_trans hdigit.2 (by decide))
  rw [utf8_append, List.length_append, Nat.toString_eq_ofList_toDigits, length_utf8_ofList hone]
  have hprefix : (utf8 "load-test-").length = 10 := by decide +kernel
  omega

theorem length_serialize_floodTransaction (offset : UInt64) :
    (serialize (floodTransaction P env startNonce amount offset)).length ≤ 223 := by
  have hdata := length_utf8_loadTest (startNonce + offset)
  have hsome : (serialize (floodTransaction P env startNonce amount offset).data).length =
      1 + (8 + (utf8 ("load-test-" ++ toString (startNonce + offset).toNat)).length) := by
    show (1 :: serialize (utf8 ("load-test-" ++ toString (startNonce + offset).toNat))).length = _
    rw [List.length_cons, length_serialize_bytes]
    omega
  have hsender : (floodTransaction P env startNonce amount offset).sender.length = 32 :=
    List.Vector.toList_length _
  have hrecipient : (floodTransaction P env startNonce amount offset).recipient.length = 32 :=
    List.Vector.toList_length _
  have hsignature : (floodTransaction P env startNonce amount offset).signature.length = 64 :=
    List.Vector.toList_length _
  have htype : (serialize (floodTransaction P env startNonce amount offset).txType).length = 4 :=
    rfl
  rw [length_serialize_transaction, hsender, hrecipient, hsignature, htype, hsome]
  omega

theorem length_serialize_of_mem {transaction : Transaction}
    (h : transaction ∈ floodTransactions P env count startNonce amount) :
    (serialize transaction).length ≤ 223 := by
  obtain ⟨offset, -, rfl⟩ := List.mem_map.mp h
  exact length_serialize_floodTransaction offset

/-- A transfer and its message are short enough for the format. -/
theorem fits_of_mem {transaction : Transaction}
    (h : transaction ∈ floodTransactions P env count startNonce amount) :
    Codec.Fits transaction ∧ Codec.Fits (Network.Message.newTransaction
      (blockchainTransactionToNetworkTransaction P transaction)) := by
  have hlength : (serialize transaction).length < 2 ^ 64 :=
    (length_serialize_of_mem h).trans_lt (by decide)
  exact ⟨Codec.fits_of_length hlength, fits_newTransaction hlength⟩

/-- No message comes twice. -/
theorem nodup_floodMessages : (floodMessages P env count startNonce amount).Nodup := by
  apply List.Nodup.map_on _ nodup_floodTransactions.of_map
  intro a ha b hb h
  have hmessage := serialize_injective (fits_of_mem ha).2 (fits_of_mem hb).2 (congrArg Prod.snd h)
  exact networkTransaction_injective (fits_of_mem ha).2 (fits_of_mem hb).2
    (Network.Message.newTransaction.inj hmessage)

end Flood

/-- **The command publishes in order.** Whatever the network answers: what it has published are the
first of its messages, in order and each once, and no two messages are equal. It has ended well
exactly when it has published all of them; it ends after at most 201 answers for each message; and
every transfer is small, has a nonce of its own and is signed by its sender. -/
theorem flood_publishes_in_order (P : Primitives) (hP : P.AcceptsOwnSignatures)
    (env : FloodEnvironment) (count startNonce amount : UInt64) (seedNodes : List String)
    (program : Interaction (String × Bytes) PublishReply PublishReply)
    (h : flood P env count startNonce amount seedNodes = .ok program)
    (replies : List PublishReply) :
    let messages := floodMessages P env count startNonce amount
    let transactions := floodTransactions P env count startNonce amount
    let outcome := program.answer replies
    accepted outcome.2 <+: messages ∧ messages.Nodup ∧ messages.length = count.toNat ∧
      (outcome.1 = .done (.ok ()) ↔ accepted outcome.2 = messages) ∧
      outcome.2.length ≤ 201 * count.toNat ∧
      (201 * count.toNat ≤ replies.length → ∃ result, outcome.1 = .done result) ∧
      (transactions.map Transaction.nonce).Nodup ∧
      ∀ transaction ∈ transactions, validateTransactionSize transaction = .ok () ∧
        transaction.sender = (P.publicKey env.senderKey).toList ∧
        verifyTransaction P transaction (P.publicKey env.senderKey) = .ok true := by
  intro messages transactions outcome
  have houtcome : outcome = (sendAll floodPolicy messages).answer replies := by
    show program.answer replies = _
    rw [flood_eq_ok h]
  have hsent : Sent messages ((floodPolicy.limit + 1) * messages.length) replies outcome.1
      outcome.2 := by
    rw [houtcome]
    exact sent_sendAll messages replies
  have hcount : (floodPolicy.limit + 1) * messages.length = 201 * count.toNat :=
    congrArg (201 * ·) length_floodMessages
  rw [hcount] at hsent
  refine ⟨hsent.inOrder, nodup_floodMessages, length_floodMessages, hsent.complete, hsent.bounded,
    hsent.ends, nodup_floodTransactions, fun transaction hmem => ⟨?_,
      verifyTransaction_flood hP hmem⟩⟩
  rw [validateTransactionSize, ensure_eq_ok]
  exact (length_serialize_of_mem hmem).trans_lt (by decide)

/-- A connected client with a seed node. -/
def sampleFlooder : FloodEnvironment where
  seedNodes := ["/ip4/127.0.0.1/tcp/7001"]
  started := true
  connected := true
  senderKey := .replicate 32 1
  recipientKey _ := .replicate 32 2

/-- Nobody is subscribed at first, and then both messages are published. -/
theorem sampleFlooder_publishes :
    ∃ program, flood proposalPrimitives sampleFlooder 2 7 5 [] = .ok program ∧
      let outcome := program.answer
        [.error "PublishError: NoPeersSubscribedToTopic", .ok (), .ok ()]
      outcome.1 = .done (.ok ()) ↔
        accepted outcome.2 = floodMessages proposalPrimitives sampleFlooder 2 7 5 := by
  have hprogram : flood proposalPrimitives sampleFlooder 2 7 5 [] =
      .ok (sendAll floodPolicy (floodMessages proposalPrimitives sampleFlooder 2 7 5)) := rfl
  exact ⟨_, hprogram, (flood_publishes_in_order proposalPrimitives
    proposalPrimitives_acceptsOwnSignatures sampleFlooder 2 7 5 [] _ hprogram _).2.2.2.1⟩

end Prims
