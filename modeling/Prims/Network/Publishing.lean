import Prims.Blockchain.Validation
import Prims.Consensus.Votes
import Prims.Lib.Text
import Prims.Network.Message

/-!
# What a node publishes

The publishing side of `network/node.rs`: a transaction, a proposed block or a vote is turned into a
message of the network and published under its topic. The message of a transaction carries all of
it, and so does the message of a vote. The message of a block has the transactions, the height and
the digest of the header; the rest of the header and the receipts stay behind.

## Main definitions

* `bytesToHex`, `blockchainTransactionToNetworkTransaction`, `blockchainBlockToNetworkBlock`,
  `consensusVoteToNetworkVote`: the conversions
* `Publication`, `Publication.publish`: the three things that are published
* `Publication.Alike`: publications that their messages do not tell apart

## Main results

* `published_messages_bind`: what is received determines what was published
-/

namespace Prims

open Bincode

def blocksTopicName : String := "prims.blocks"

def transactionsTopicName : String := "prims.transactions"

def votesTopicName : String := "prims.votes"

/-! ## The conversions -/

/-- Two digits for each byte, the upper four bits first. -/
def bytesToHex (bytes : Bytes) : String :=
  String.ofList (bytes.flatMap fun byte : UInt8 =>
    [Text.hexDigit (byte >>> 4).toNat, Text.hexDigit (byte &&& 0x0f).toNat])

theorem bytesToHex_eq (bytes : Bytes) :
    bytesToHex bytes = String.ofList (Text.hexEncode bytes) := by
  have hbyte : ∀ byte : UInt8,
      (byte >>> 4).toNat = byte.toNat / 16 ∧ (byte &&& 0x0f).toNat = byte.toNat % 16 := by
    intro byte
    constructor
    · rw [UInt8.toNat_shiftRight, Nat.shiftRight_eq_div_pow]
      rfl
    · rw [UInt8.toNat_and]
      exact Nat.and_two_pow_sub_one_eq_mod byte.toNat 4
  rw [bytesToHex, Text.hexEncode]
  congr
  funext byte
  rw [(hbyte byte).1, (hbyte byte).2]

theorem bytesToHex_injective : Function.Injective bytesToHex := by
  intro bytes bytes' h
  rw [bytesToHex_eq, bytesToHex_eq] at h
  exact Text.hexEncode_injective (String.ofList_injective h)

section Publishing

variable (P : Primitives)

def blockchainTransactionToNetworkTransaction (transaction : Transaction) :
    Network.Transaction where
  id := bytesToHex (hashTransaction P transaction).toList
  payload := serialize transaction

def blockchainBlockToNetworkBlock (block : Block) : Network.Block where
  height := block.header.height
  hash := bytesToHex (hashBlockHeader P block.header).toList
  transactions := block.transactions.map (blockchainTransactionToNetworkTransaction P)

def consensusVoteToNetworkVote (vote : ConsensusVote) : Network.Vote where
  height := vote.height
  blockHash := vote.blockHash
  voter := vote.voter
  approve := vote.approve
  signature := vote.signature

/-! ## Publications -/

/-- What gossipsub is asked to publish: the topic and the bytes. -/
def publishMessage (topic : String) (message : Network.Message) : String × Bytes :=
  (topic, message.toBytes)

def publishTransaction (transaction : Transaction) : String × Bytes :=
  publishMessage transactionsTopicName
    (.newTransaction (blockchainTransactionToNetworkTransaction P transaction))

def publishProposedBlock (block : Block) : String × Bytes :=
  publishMessage blocksTopicName (.newBlock (blockchainBlockToNetworkBlock P block))

def publishVote (vote : ConsensusVote) : String × Bytes :=
  publishMessage votesTopicName (.vote (consensusVoteToNetworkVote vote))

/-- A transaction, a proposed block or a vote. -/
inductive Publication where
  | transaction (transaction : Transaction)
  | proposedBlock (block : Block)
  | vote (vote : ConsensusVote)

namespace Publication

def publish : Publication → String × Bytes
  | .transaction a => publishTransaction P a
  | .proposedBlock a => publishProposedBlock P a
  | .vote a => publishVote a

/-- The message that is published. -/
def message : Publication → Network.Message
  | .transaction a => .newTransaction (blockchainTransactionToNetworkTransaction P a)
  | .proposedBlock a => .newBlock (blockchainBlockToNetworkBlock P a)
  | .vote a => .vote (consensusVoteToNetworkVote a)

/-- Publications that their messages do not tell apart: equal transactions or votes, or blocks with
one height, one header digest and the same transactions. -/
def Alike : Publication → Publication → Prop
  | .transaction a, .transaction b => a = b
  | .proposedBlock a, .proposedBlock b =>
    a.header.height = b.header.height ∧
      hashBlockHeader P a.header = hashBlockHeader P b.header ∧ a.transactions = b.transactions
  | .vote a, .vote b => a = b
  | _, _ => False

variable {P}

theorem publish_snd (p : Publication) : (p.publish P).2 = (p.message P).toBytes := by
  cases p <;> rfl

/-- Publications whose messages are of one kind go to one topic. -/
theorem Alike.topic {p q : Publication} (h : Alike P p q) :
    (p.publish P).1 = (q.publish P).1 := by
  cases p <;> cases q <;> first | rfl | exact h.elim

end Publication

/-! ## What a message determines -/

variable {P}

theorem fits_of_fits_networkTransaction {transaction : Transaction}
    (h : Codec.Fits (blockchainTransactionToNetworkTransaction P transaction)) :
    Codec.Fits transaction :=
  Codec.fits_of_length h.2.1

/-- The identifier of a transaction has 64 digits, so its message fits if its payload does. -/
theorem fits_newTransaction {transaction : Transaction}
    (h : (serialize transaction).length < 2 ^ 64) :
    Codec.Fits (Network.Message.newTransaction
      (blockchainTransactionToNetworkTransaction P transaction)) := by
  have hdigit : ∀ n < 16, (Text.hexDigit n).utf8Size = 1 := by decide
  have hid : (utf8 (blockchainTransactionToNetworkTransaction P transaction).id).length = 64 := by
    show (utf8 (bytesToHex (hashTransaction P transaction).toList)).length = 64
    rw [bytesToHex_eq, length_utf8_ofList, Text.length_hexEncode, List.Vector.toList_length]
    intro c hc
    obtain ⟨n, hn, rfl⟩ := Text.mem_hexEncode hc
    exact hdigit n hn
  refine ⟨?_, h, fun byte _ => trivial⟩
  show (utf8 (blockchainTransactionToNetworkTransaction P transaction).id).length < 2 ^ 64
  omega

/-- The payload of a transaction is all of it. -/
theorem networkTransaction_injective {a b : Transaction}
    (ha : Codec.Fits (blockchainTransactionToNetworkTransaction P a))
    (hb : Codec.Fits (blockchainTransactionToNetworkTransaction P b))
    (h : blockchainTransactionToNetworkTransaction P a =
      blockchainTransactionToNetworkTransaction P b) : a = b :=
  serialize_injective (fits_of_fits_networkTransaction ha) (fits_of_fits_networkTransaction hb)
    (congrArg Network.Transaction.payload h)

theorem map_networkTransaction_injective {l l' : List Transaction}
    (hl : ∀ t ∈ l, Codec.Fits (blockchainTransactionToNetworkTransaction P t))
    (hl' : ∀ t ∈ l', Codec.Fits (blockchainTransactionToNetworkTransaction P t))
    (h : l.map (blockchainTransactionToNetworkTransaction P) =
      l'.map (blockchainTransactionToNetworkTransaction P)) : l = l' := by
  induction l generalizing l' with
  | nil => exact (List.map_eq_nil_iff.mp h.symm).symm
  | cons a l ih =>
    cases l' with
    | nil => cases h
    | cons b l' =>
      rw [List.map_cons, List.map_cons, List.cons.injEq] at h
      rw [List.forall_mem_cons] at hl hl'
      rw [networkTransaction_injective hl.1 hl'.1 h.1, ih hl.2 hl'.2 h.2]

theorem consensusVoteToNetworkVote_injective : Function.Injective consensusVoteToNetworkVote := by
  rintro ⟨⟩ ⟨⟩ h
  cases h
  rfl

/-- **Messages are equal** exactly for publications that are alike. -/
theorem Publication.message_eq_iff {p q : Publication} (hp : Codec.Fits (p.message P))
    (hq : Codec.Fits (q.message P)) : p.message P = q.message P ↔ Alike P p q := by
  cases p with
  | transaction a =>
    cases q with
    | transaction b =>
      constructor
      · intro h
        exact networkTransaction_injective hp hq (Network.Message.newTransaction.inj h)
      · rintro ⟨⟩
        rfl
    | proposedBlock b => exact iff_of_false Network.Message.noConfusion id
    | vote b => exact iff_of_false Network.Message.noConfusion id
  | proposedBlock a =>
    cases q with
    | transaction b => exact iff_of_false Network.Message.noConfusion id
    | proposedBlock b =>
      -- the transactions of both blocks fit, since those of the messages do
      have hfits : ∀ block : Block, Codec.Fits (blockchainBlockToNetworkBlock P block) →
          ∀ t ∈ block.transactions,
            Codec.Fits (blockchainTransactionToNetworkTransaction P t) :=
        fun block hblock t ht => hblock.2.2.2 _ (List.mem_map_of_mem ht)
      constructor
      · intro h
        have hblock := Network.Message.newBlock.inj h
        have hhash := bytesToHex_injective (congrArg Network.Block.hash hblock)
        exact ⟨congrArg Network.Block.height hblock, Subtype.ext hhash,
          map_networkTransaction_injective (hfits a hp) (hfits b hq)
            (congrArg Network.Block.transactions hblock)⟩
      · rintro ⟨hheight, hhash, htransactions⟩
        simp only [message, blockchainBlockToNetworkBlock, hheight, hhash, htransactions]
    | vote b => exact iff_of_false Network.Message.noConfusion id
  | vote a =>
    cases q with
    | transaction b => exact iff_of_false Network.Message.noConfusion id
    | proposedBlock b => exact iff_of_false Network.Message.noConfusion id
    | vote b =>
      constructor
      · intro h
        exact consensusVoteToNetworkVote_injective (Network.Message.vote.inj h)
      · rintro ⟨⟩
        rfl

/-- A publication in memory: its message fits, and so does the header of a block. -/
structure Publication.Fits (P : Primitives) (p : Publication) : Prop where
  message : Codec.Fits (p.message P)
  header : ∀ block, p = .proposedBlock block → Codec.Fits block.header

end Publishing

/-- **What is received determines what was published.** Received bytes are read as the message of a
publication if and only if they start with what was published. Two publications put the same bytes
on the network if and only if they are the same transaction, the same vote, or blocks with one
height, one header digest and the same transactions; they go to one topic then. Two blocks with the
same bytes have the same transactions, and one header unless their headers collide; only their
receipts are not in the message at all. -/
theorem published_messages_bind (P : Primitives) (p q : Publication) (hp : p.Fits P)
    (hq : q.Fits P) :
    (∀ data, Network.Message.fromBytes data = .ok (p.message P) ↔ (p.publish P).2 <+: data) ∧
    ((p.publish P).2 = (q.publish P).2 ↔ p.Alike P q) ∧
    ((p.publish P).2 = (q.publish P).2 → (p.publish P).1 = (q.publish P).1) ∧
    ∀ a b, p = .proposedBlock a → q = .proposedBlock b → (p.publish P).2 = (q.publish P).2 →
      a.transactions = b.transactions ∧
        (a.header = b.header ∨ Collision P.sha256 [serialize a.header, serialize b.header]) := by
  have hbytes : (p.publish P).2 = (q.publish P).2 ↔ p.Alike P q := by
    rw [← Publication.message_eq_iff hp.message hq.message, Publication.publish_snd,
      Publication.publish_snd]
    exact ⟨serialize_injective hp.message hq.message, congrArg _⟩
  refine ⟨fun data => ?_, hbytes, fun h => (hbytes.mp h).topic, ?_⟩
  · rw [Publication.publish_snd]
    exact deserialize_eq_ok_iff.trans (and_iff_right hp.message)
  · rintro a b rfl rfl h
    obtain ⟨-, hhash, htransactions⟩ := hbytes.mp h
    refine ⟨htransactions, ?_⟩
    by_cases hcol : Collision P.sha256 [serialize a.header, serialize b.header]
    · exact .inr hcol
    · left
      apply serialize_injective (hp.header a rfl) (hq.header b rfl)
      exact eq_of_hash_eq hcol (by simp) (by simp) hhash

theorem fits_sampleBlocks :
    (Publication.proposedBlock sampleBlock).Fits headerSignature ∧
      (Publication.proposedBlock repeatedBlock).Fits headerSignature := by
  have hheader : Codec.Fits sampleHeader := Codec.fits_of_length (by decide +kernel)
  have hfits : ∀ block : Block, block.header = sampleHeader →
      (serialize (blockchainBlockToNetworkBlock headerSignature block)).length < 2 ^ 64 →
      (Publication.proposedBlock block).Fits headerSignature := by
    intro block hblock hlength
    have hbody : Codec.Fits (blockchainBlockToNetworkBlock headerSignature block) :=
      Codec.fits_of_length hlength
    refine ⟨hbody, ?_⟩
    rintro _ ⟨⟩
    exact hblock ▸ hheader
  exact ⟨hfits sampleBlock rfl (by decide +kernel), hfits repeatedBlock rfl (by decide +kernel)⟩

/-- The two sample blocks have one header, and their messages tell them apart. -/
theorem sampleBlocks_told_apart :
    ((Publication.proposedBlock sampleBlock).publish headerSignature).2 ≠
      ((Publication.proposedBlock repeatedBlock).publish headerSignature).2 := by
  intro h
  obtain ⟨hp, hq⟩ := fits_sampleBlocks
  obtain ⟨-, -, htransactions⟩ :=
    (published_messages_bind headerSignature _ _ hp hq).2.1.mp h
  exact absurd (congrArg List.length htransactions) (by decide)

end Prims
