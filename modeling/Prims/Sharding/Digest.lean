import Prims.Lib.Bytes
import Prims.Lib.Mixing

/-!
# The mixing functions of the sharding layer

Committee scores, transaction digests and receipt proofs come from one loop: a state of 64 bits
absorbs the bytes of a message, each with its place, and is scrambled by `splitmix64` after every
one of them.

None of this is a cryptographic hash, but none of the steps loses anything: the state before a step
is read off the state after it when the byte is known, and the byte when the state is known.

## Main definitions

* `splitmix64`, `absorb`: the scrambling and the loop
* `assignmentScore`: the order in which validators are dealt to the shards in an epoch
* `deterministicDigest`: 32 bytes from a message and a seed

## Main results

* `splitmix64_bijective`: the scrambling is a permutation of the words
* `epoch_determines_score`: the score of an address in one epoch is not its score in another
* `deterministicDigest_ne`: one byte that differs changes the digest
-/

namespace Prims

/-- `RECEIPT_PROOF_LENGTH` -/
def receiptProofLength : ℕ := 32

def splitmix64 (value : UInt64) : UInt64 :=
  let value := value + 0x9E3779B97F4A7C15
  let value := (value ^^^ (value >>> 30)) * 0xBF58476D1CE4E5B9
  let value := (value ^^^ (value >>> 27)) * 0x94D049BB133111EB
  value ^^^ (value >>> 31)

/-- The loop over the bytes of a message, which `assignment_score` and `deterministic_digest`
share. The places count from one. -/
def absorb (state : UInt64) (payload : Bytes) : UInt64 :=
  payload.zipIdx.foldl (fun state e =>
    splitmix64 (state ^^^ (e.1.toUInt64 + (UInt64.ofNat e.2 + 1) * 0x9E3779B97F4A7C15))) state

def assignmentScore (epoch : UInt64) (address : Bytes) : UInt64 :=
  splitmix64 (absorb (epoch ^^^ 0x9E3779B97F4A7C15) address)

def deterministicDigest (payload : Bytes) (seed : UInt64) : Bytes :=
  let state := absorb (seed ^^^ (UInt64.ofNat payload.length * 0x9E3779B97F4A7C15)) payload
  (List.range (receiptProofLength / 8)).flatMap fun lane =>
    beBytes 8 (splitmix64 (state ^^^ UInt64.ofNat lane)).toNat

/-! ## Nothing is lost -/

/-- The constants of the two products are odd, so they have inverses. -/
theorem splitmix64_injective : Function.Injective splitmix64 := by
  have hadd : Function.Injective fun value : UInt64 => value + 0x9E3779B97F4A7C15 :=
    fun _ _ h => (UInt64.add_left_inj _).mp h
  have hfirst := (Mixing.mul_injective 0xBF58476D1CE4E5B9 0x96DE1B173F119089 (by decide)).comp
    (Mixing.xorShift_injective 30 (by decide) (by decide))
  have hsecond := (Mixing.mul_injective 0x94D049BB133111EB 0x319642B2D24D8EC3 (by decide)).comp
    (Mixing.xorShift_injective 27 (by decide) (by decide))
  have hlast := Mixing.xorShift_injective 31 (by decide) (by decide)
  exact hlast.comp (hsecond.comp (hfirst.comp hadd))

/-- **The scrambling** is a permutation of the words. -/
theorem splitmix64_bijective : Function.Bijective splitmix64 :=
  Finite.injective_iff_bijective.mp splitmix64_injective

/-- The word that a byte adds to the state, at its place. -/
def absorbed (e : UInt8 × ℕ) : UInt64 :=
  e.1.toUInt64 + (UInt64.ofNat e.2 + 1) * 0x9E3779B97F4A7C15

theorem absorbed_injective (i : ℕ) : Function.Injective fun byte => absorbed (byte, i) := by
  intro a b h
  have hbyte : a.toUInt64 = b.toUInt64 := (UInt64.add_left_inj _).mp h
  have hnat := congrArg UInt64.toNat hbyte
  rw [UInt8.toNat_toUInt64, UInt8.toNat_toUInt64] at hnat
  exact UInt8.toNat_inj.mp hnat

theorem absorb_eq_foldl (state : UInt64) (payload : Bytes) : absorb state payload =
    payload.zipIdx.foldl (fun state e => splitmix64 (state ^^^ absorbed e)) state := rfl

/-- A step of the loop loses nothing of the state. -/
theorem absorbStep_injective (e : UInt8 × ℕ) :
    Function.Injective fun state => splitmix64 (state ^^^ absorbed e) :=
  splitmix64_injective.comp fun _ _ h => (UInt64.xor_left_inj _).mp h

theorem absorb_injective (payload : Bytes) :
    Function.Injective fun state => absorb state payload := by
  simp only [absorb_eq_foldl]
  exact Mixing.foldl_injective absorbStep_injective payload.zipIdx

/-- **One byte that differs** leads to another state, from every state and at every place. -/
theorem absorb_ne (state : UInt64) (before after : Bytes) {a b : UInt8} (h : a ≠ b) :
    absorb state (before ++ a :: after) ≠ absorb state (before ++ b :: after) := by
  rw [absorb_eq_foldl, absorb_eq_foldl, List.zipIdx_append, List.zipIdx_append, List.zipIdx_cons,
    List.zipIdx_cons]
  refine Mixing.foldl_ne_of_ne absorbStep_injective fun heq => h ?_
  exact absorbed_injective _ ((UInt64.xor_right_inj _).mp (splitmix64_injective heq))

/-- **One byte that differs** changes the digest: its first eight bytes are the scrambled state. -/
theorem deterministicDigest_ne (seed : UInt64) (before after : Bytes) {a b : UInt8} (h : a ≠ b) :
    deterministicDigest (before ++ a :: after) seed ≠
      deterministicDigest (before ++ b :: after) seed := by
  have hlength : (before ++ a :: after).length = (before ++ b :: after).length := by
    rw [List.length_append, List.length_append, List.length_cons, List.length_cons]
  have hlanes : List.range (receiptProofLength / 8) = 0 :: [1, 2, 3] := rfl
  intro heq
  rw [deterministicDigest, deterministicDigest, hlength, hlanes] at heq
  rw [List.flatMap_cons, List.flatMap_cons] at heq
  obtain ⟨hfirst, -⟩ := List.append_inj heq (by rw [length_beBytes, length_beBytes])
  have hstate := UInt64.toNat_inj.mp
    ((beBytes_inj (UInt64.toNat_lt _) (UInt64.toNat_lt _)).mp hfirst)
  exact absorb_ne _ before after h ((UInt64.xor_left_inj _).mp (splitmix64_injective hstate))

/-- **The epoch determines the score**: for every address the score is a permutation of the epochs,
so that an address has different scores in different epochs. -/
theorem epoch_determines_score (address : Bytes) :
    (Function.Bijective fun epoch => assignmentScore epoch address) ∧
      Function.Bijective splitmix64 ∧
      ∀ epoch epoch', epoch ≠ epoch' →
        assignmentScore epoch address ≠ assignmentScore epoch' address := by
  have hinjective : Function.Injective fun epoch => assignmentScore epoch address := by
    intro epoch epoch' h
    exact (UInt64.xor_left_inj _).mp (absorb_injective address (splitmix64_injective h))
  exact ⟨Finite.injective_iff_bijective.mp hinjective, splitmix64_bijective,
    fun _ _ hne h => hne (hinjective h)⟩

end Prims
