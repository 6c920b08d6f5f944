import Prims.Crypto

/-!
# Payloads with a checksum

The envelope of `storage/checksum.rs`: a payload is written together with its SHA-256 digest, and it
is read back only when the digest that was read is the digest of the payload that was read. Both
fields of the envelope have a length that is read from the input. The reader goes on from where the
first field ends, so what it accepts is decided by the format: an accepted input starts with the
envelope of the payload that it returns.

## Main definitions

* `wrapPayload`, `unwrapPayload`: the two functions of the module
* `storedChecksum`: the bytes of an envelope that are the digest

## Main results

* `unwrapPayload_eq_ok_iff`: what is accepted
* `unwrapPayload_truncated`: an envelope that was cut short does not decode
-/

namespace Prims

open Bincode

structure CheckedPayload where
  checksum : Bytes
  payload : Bytes
  deriving DecidableEq, Repr

instance : Codec CheckedPayload :=
  Codec.ofEquiv (β := Bytes × Bytes)
    { toFun c := (c.checksum, c.payload)
      invFun := fun (checksum, payload) => ⟨checksum, payload⟩ }

/-- The reasons an input is rejected: it does not decode, or "checksum mismatch: critical data may
be corrupted". -/
inductive ChecksumError where
  | decode (error : DecodeError)
  | checksumMismatch
  deriving DecidableEq, Repr

variable (P : Primitives)

/-- A payload with its digest. -/
def checkedPayload (payload : Bytes) : CheckedPayload where
  checksum := (P.sha256 payload).toList
  payload

def wrapPayload (payload : Bytes) : Bytes := serialize (checkedPayload P payload)

def unwrapPayload (encoded : Bytes) : Except ChecksumError Bytes := do
  let checked : CheckedPayload ← (deserialize encoded).mapError .decode
  let actual := (P.sha256 checked.payload).toList
  ensure (actual = checked.checksum) .checksumMismatch
  return checked.payload

/-- The bytes of the digest: they follow its length. -/
def storedChecksum (encoded : Bytes) : Bytes := (encoded.drop 8).take 32

variable {P}

/-! ## The envelope -/

theorem fits_checkedPayload {payload : Bytes} :
    Codec.Fits (checkedPayload P payload) ↔ Codec.Fits payload := by
  refine ⟨And.right, fun h => ⟨⟨?_, fun _ _ => trivial⟩, h⟩⟩
  show (P.sha256 payload).toList.length < 2 ^ 64
  rw [List.Vector.toList_length]
  decide

theorem wrapPayload_eq (payload : Bytes) :
    wrapPayload P payload =
      leBytes 8 32 ++ (P.sha256 payload).toList ++
        (leBytes 8 (payload.length % 2 ^ 64) ++ payload) := by
  show serialize (P.sha256 payload).toList ++ serialize payload = _
  rw [serialize_bytes, serialize_bytes, List.Vector.toList_length]
  rfl

/-- The digest of an input that starts with an envelope. -/
theorem storedChecksum_of_isPrefix {encoded payload : Bytes}
    (h : wrapPayload P payload <+: encoded) :
    storedChecksum encoded = (P.sha256 payload).toList := by
  obtain ⟨rest, rfl⟩ := h
  rw [storedChecksum, wrapPayload_eq, List.append_assoc, List.append_assoc,
    List.drop_left' (length_leBytes 8 32), List.take_left' (List.Vector.toList_length _)]

/-! ## What is accepted -/

/-- **What is accepted**: an input is accepted with a payload when it starts with the envelope of
the payload. -/
theorem unwrapPayload_eq_ok_iff {encoded payload : Bytes} :
    unwrapPayload P encoded = .ok payload ↔
      Codec.Fits payload ∧ wrapPayload P payload <+: encoded := by
  rw [← fits_checkedPayload (P := P), wrapPayload, ← deserialize_eq_ok_iff, unwrapPayload,
    Except.bind_eq_ok]
  constructor
  · rintro ⟨⟨checksum, payload'⟩, hdecode, hrest⟩
    rw [ensure_bind_eq_ok] at hrest
    obtain ⟨hchecksum, hpayload⟩ := hrest
    obtain rfl : payload' = payload := Except.ok.inj hpayload
    obtain rfl : (P.sha256 payload').toList = checksum := hchecksum
    exact Except.mapError_eq_ok.mp hdecode
  · intro hdecode
    refine ⟨checkedPayload P payload, Except.mapError_eq_ok.mpr hdecode, ?_⟩
    exact ensure_bind_eq_ok.mpr ⟨rfl, rfl⟩

/-- **An envelope that was cut short** does not decode: its lengths overrun what is left of it. -/
theorem unwrapPayload_truncated {encoded payload : Bytes} (hfit : Codec.Fits payload)
    (hcut : encoded <+: wrapPayload P payload) (hne : encoded ≠ wrapPayload P payload) :
    ∃ error, unwrapPayload P encoded = .error (.decode error) := by
  cases hdecode : (deserialize encoded : Except DecodeError CheckedPayload) with
  | error error =>
    refine ⟨error, ?_⟩
    rw [unwrapPayload, hdecode]
    rfl
  | ok envelope =>
    obtain ⟨henvelope, hstart⟩ := deserialize_eq_ok_iff.mp hdecode
    have heq : envelope = checkedPayload P payload :=
      eq_of_serialize_isPrefix henvelope (fits_checkedPayload.mpr hfit) (hstart.trans hcut)
    subst heq
    exact absurd (hcut.eq_of_length_le hstart.length_le) hne

/-- **The envelope accepts what it produced**: an input is accepted with a payload if and only if it
starts with the wrapped payload. So wrapping round-trips, no wrapped payload can be cut short, and
whatever input is accepted stores the digest of the payload that it returns; one that differs from
a wrapped payload of the same length returns another payload. -/
theorem unwrapPayload_accepts_wrapped (payload : Fitting Bytes) :
    (∀ encoded, unwrapPayload P encoded = .ok payload.val ↔
      wrapPayload P payload.val <+: encoded) ∧
    unwrapPayload P (wrapPayload P payload.val) = .ok payload.val ∧
    (∀ encoded, encoded <+: wrapPayload P payload.val → encoded ≠ wrapPayload P payload.val →
      ∃ error, unwrapPayload P encoded = .error (.decode error)) ∧
    (∀ encoded accepted, unwrapPayload P encoded = .ok accepted →
      Codec.Fits accepted ∧ storedChecksum encoded = (P.sha256 accepted).toList) ∧
    ∀ encoded accepted, unwrapPayload P encoded = .ok accepted →
      encoded.length = (wrapPayload P payload.val).length → encoded ≠ wrapPayload P payload.val →
      accepted ≠ payload.val := by
  have hiff : ∀ encoded, unwrapPayload P encoded = .ok payload.val ↔
      wrapPayload P payload.val <+: encoded := fun encoded => by
    rw [unwrapPayload_eq_ok_iff, and_iff_right payload.property]
  refine ⟨hiff, ?_, fun encoded => ?_, fun encoded accepted haccept => ?_,
    fun encoded accepted haccept hlen hne heq => ?_⟩
  · exact (hiff _).mpr (List.prefix_refl _)
  · exact unwrapPayload_truncated payload.property
  · obtain ⟨hfit, hstart⟩ := unwrapPayload_eq_ok_iff.mp haccept
    exact ⟨hfit, storedChecksum_of_isPrefix hstart⟩
  · subst heq
    exact hne (((hiff encoded).mp haccept).eq_of_length hlen.symm).symm

end Prims
