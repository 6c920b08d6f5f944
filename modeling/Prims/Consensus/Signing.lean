import Prims.Consensus.Proposal
import Prims.Consensus.Votes

/-!
# What a signature covers

Transactions, votes and block headers are signed over their encoding with the signature cleared. The
encoding is read back in one way only, so that equal bytes mean equal values: two transactions have
the same signed bytes exactly when they agree on every field but the signature, and the same holds
for votes and headers.

The bytes of a header are computed twice in the source, once to sign a proposal and once to validate
a block.

## Main definitions

* `SignatureField α`: the signature as a field of the values of a type

## Main results

* `SignatureField.unsigned_eq_iff`: what the encoding without the signature determines
* `signed_bytes_cover_every_field`: transactions, votes and headers, and the two copies for headers
-/

namespace Prims

open Bincode

/-- The signature as a field: it can be read and replaced, and clearing it keeps a value in
memory. -/
structure SignatureField (α : Type) [Codec α] where
  get : α → Bytes
  set : α → Bytes → α
  set_get : ∀ a, set a (get a) = a
  set_set : ∀ a signature signature', set (set a signature) signature' = set a signature'
  fits_clear : ∀ a, Codec.Fits a → Codec.Fits (set a [])

/-- **The encoding without the signature** determines everything but the signature. -/
theorem SignatureField.unsigned_eq_iff {α : Type} [Codec α] (field : SignatureField α)
    (a b : Fitting α) :
    serialize (field.set a.val []) = serialize (field.set b.val []) ↔
      a.val = field.set b.val (field.get a.val) := by
  constructor
  · intro h
    have hunsigned : field.set a.val [] = field.set b.val [] :=
      serialize_injective (field.fits_clear a.val a.property) (field.fits_clear b.val b.property) h
    -- put the signature back
    calc a.val = field.set (field.set a.val []) (field.get a.val) := by
          rw [field.set_set, field.set_get]
      _ = field.set (field.set b.val []) (field.get a.val) := by rw [hunsigned]
      _ = field.set b.val (field.get a.val) := field.set_set _ _ _
  · intro h
    rw [h, field.set_set]

theorem fits_nil_bytes : Codec.Fits ([] : Bytes) := Codec.fits_of_length (by decide)

def Transaction.signatureField : SignatureField Transaction where
  get := Transaction.signature
  set transaction signature := { transaction with signature }
  set_get _ := rfl
  set_set _ _ _ := rfl
  fits_clear := by
    rintro transaction
      ⟨htype, hsender, hrecipient, hamount, hfee, hnonce, hsource, hdestination, -, hdata⟩
    exact ⟨htype, hsender, hrecipient, hamount, hfee, hnonce, hsource, hdestination, fits_nil_bytes,
      hdata⟩

def ConsensusVote.signatureField : SignatureField ConsensusVote where
  get := ConsensusVote.signature
  set vote signature := { vote with signature }
  set_get _ := rfl
  set_set _ _ _ := rfl
  fits_clear := by
    rintro vote ⟨hheight, hhash, hvoter, happrove, -⟩
    exact ⟨hheight, hhash, hvoter, happrove, fits_nil_bytes⟩

def BlockHeader.signatureField : SignatureField BlockHeader where
  get := BlockHeader.signature
  set header signature := { header with signature }
  set_get _ := rfl
  set_set _ _ _ := rfl
  fits_clear := by
    rintro header ⟨hversion, hprevious, hroot, htimestamp, hheight, hvalidator, -⟩
    exact ⟨hversion, hprevious, hroot, htimestamp, hheight, hvalidator, fits_nil_bytes⟩

/-- **Signatures cover every field**: two transactions have equal signed bytes if and only if they
agree on every field except the signature, and so do two votes and two headers. The two copies of
the function for headers give equal bytes. -/
theorem signed_bytes_cover_every_field :
    (∀ a b : Fitting Transaction,
      unsignedTransactionBytes a.val = unsignedTransactionBytes b.val ↔
        a.val = { b.val with signature := a.val.signature }) ∧
    (∀ a b : Fitting ConsensusVote,
      unsignedVoteBytes a.val = unsignedVoteBytes b.val ↔
        a.val = { b.val with signature := a.val.signature }) ∧
    (∀ a b : Fitting BlockHeader,
      unsignedBlockHeaderBytes a.val = unsignedBlockHeaderBytes b.val ↔
        a.val = { b.val with signature := a.val.signature }) ∧
    ∀ header : BlockHeader,
      Consensus.unsignedBlockHeaderBytes header = unsignedBlockHeaderBytes header := by
  refine ⟨fun a b => ?_, fun a b => ?_, fun a b => ?_, fun header => rfl⟩
  · exact Transaction.signatureField.unsigned_eq_iff a b
  · exact ConsensusVote.signatureField.unsigned_eq_iff a b
  · exact BlockHeader.signatureField.unsigned_eq_iff a b

end Prims
