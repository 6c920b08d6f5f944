import Mathlib.Data.Vector.Basic
import Mathlib.Tactic.Ring

/-!
# Bytes and machine words

Byte strings are lists of bytes, and fixed-size byte arrays are lists that carry their length.
A machine word is written as a byte string of its width, least significant byte first or last,
and read back without loss.

## Main definitions

* `Bytes`, `Bytes32`, `Bytes64`: byte strings and the fixed-size arrays
* `leBytes w n`, `beBytes w n`: the `w` bytes of `n`, in the two byte orders
* `beVector`: the same bytes as an array of fixed size
* `leNat`, `beNat`: the number a byte string writes, in the two byte orders
* `UInt64.checkedAdd`: addition that fails on overflow
* `UInt64.saturatingAdd`, `UInt64.saturatingSub`: arithmetic that stops at the bounds

## Main results

* `leNat_leBytes`, `leBytes_leNat`: little-endian bytes and the numbers they write
* `leBytes_inj`, `beBytes_inj`: a number is read off its bytes
-/

/-- A byte string. -/
abbrev Bytes := List UInt8

/-- A byte array of 32 bytes: a key, a digest or a seed. -/
abbrev Bytes32 := List.Vector UInt8 32

/-- A byte array of 64 bytes: a signature. -/
abbrev Bytes64 := List.Vector UInt8 64

/-- The fixed-size array with the given contents, when the length is right. -/
def Bytes.toVector? (n : ℕ) (b : Bytes) : Option (List.Vector UInt8 n) :=
  if h : b.length = n then some ⟨b, h⟩ else none

theorem Bytes.toVector?_eq_some {n : ℕ} {b : Bytes} {v : List.Vector UInt8 n} :
    b.toVector? n = some v ↔ b = v.toList := by
  unfold Bytes.toVector?
  constructor
  · intro h
    split at h
    · cases h
      rfl
    · cases h
  · rintro rfl
    rw [dif_pos v.toList_length]
    rfl

@[simp] theorem Bytes.toVector?_toList {n : ℕ} (v : List.Vector UInt8 n) :
    Bytes.toVector? n v.toList = some v :=
  Bytes.toVector?_eq_some.mpr rfl

/-! ## Words as bytes -/

/-- The `w` bytes of `n`, least significant first. -/
def leBytes : ℕ → ℕ → Bytes
  | 0, _ => []
  | w + 1, n => UInt8.ofNat n :: leBytes w (n / 256)

/-- The `w` bytes of `n`, most significant first. -/
def beBytes (w n : ℕ) : Bytes := (leBytes w n).reverse

/-- The number a little-endian byte string writes. -/
def leNat : Bytes → ℕ
  | [] => 0
  | b :: bs => b.toNat + 256 * leNat bs

/-- The number a big-endian byte string writes. -/
def beNat (b : Bytes) : ℕ := leNat b.reverse

@[simp] theorem length_leBytes (w n : ℕ) : (leBytes w n).length = w := by
  induction w generalizing n with
  | zero => rfl
  | succ w ih => simp [leBytes, ih]

@[simp] theorem length_beBytes (w n : ℕ) : (beBytes w n).length = w := by
  simp [beBytes]

/-- The array of `w` bytes that writes `n`, most significant first. -/
def beVector (w n : ℕ) : List.Vector UInt8 w := ⟨beBytes w n, length_beBytes w n⟩

theorem leNat_leBytes (w n : ℕ) : leNat (leBytes w n) = n % 256 ^ w := by
  induction w generalizing n with
  | zero => simp [leBytes, leNat, Nat.mod_one]
  | succ w ih =>
    simp only [leBytes, leNat, ih, UInt8.toNat_ofNat', Nat.reducePow]
    rw [pow_succ', Nat.mod_mul]

theorem leNat_lt (b : Bytes) : leNat b < 256 ^ b.length := by
  induction b with
  | nil => simp [leNat]
  | cons x b ih =>
    have hx := x.toNat_lt
    simp only [leNat, List.length_cons, pow_succ']
    omega

theorem leBytes_leNat (b : Bytes) : leBytes b.length (leNat b) = b := by
  induction b with
  | nil => rfl
  | cons x b ih =>
    have hx := x.toNat_lt
    have hdiv : (x.toNat + 256 * leNat b) / 256 = leNat b := by omega
    simp only [List.length_cons, leNat, leBytes, hdiv, ih, List.cons.injEq, and_true]
    apply UInt8.toNat_inj.mp
    rw [UInt8.toNat_ofNat']
    omega

/-- Numbers that fit in the width are read off their bytes. -/
theorem leBytes_inj {w m n : ℕ} (hm : m < 256 ^ w) (hn : n < 256 ^ w) :
    leBytes w m = leBytes w n ↔ m = n := by
  refine ⟨fun h => ?_, fun h => by rw [h]⟩
  have hnat := congrArg leNat h
  rwa [leNat_leBytes, leNat_leBytes, Nat.mod_eq_of_lt hm, Nat.mod_eq_of_lt hn] at hnat

theorem beBytes_inj {w m n : ℕ} (hm : m < 256 ^ w) (hn : n < 256 ^ w) :
    beBytes w m = beBytes w n ↔ m = n := by
  rw [beBytes, beBytes, List.reverse_inj, leBytes_inj hm hn]

/-! ## Checked arithmetic -/

/-- Addition that fails when the sum does not fit in 64 bits. -/
def UInt64.checkedAdd (a b : UInt64) : Option UInt64 :=
  if a.toNat + b.toNat < 2 ^ 64 then some (a + b) else none

theorem UInt64.checkedAdd_eq_some {a b c : UInt64} :
    a.checkedAdd b = some c ↔ c.toNat = a.toNat + b.toNat := by
  have hc := c.toNat_lt
  unfold UInt64.checkedAdd
  split
  · next h =>
    simp only [Option.some.injEq, ← UInt64.toNat_inj, UInt64.toNat_add, Nat.mod_eq_of_lt h]
    exact eq_comm
  · next h =>
    simp only [reduceCtorEq, false_iff]
    omega

theorem UInt64.checkedAdd_eq_none {a b : UInt64} :
    a.checkedAdd b = none ↔ 2 ^ 64 ≤ a.toNat + b.toNat := by
  unfold UInt64.checkedAdd
  split <;> simp_all

/-! ## Saturating arithmetic -/

/-- Addition that stops at the largest number of 64 bits. -/
def UInt64.saturatingAdd (a b : UInt64) : UInt64 :=
  UInt64.ofNat (min (a.toNat + b.toNat) (2 ^ 64 - 1))

/-- Subtraction that stops at zero. -/
def UInt64.saturatingSub (a b : UInt64) : UInt64 := UInt64.ofNat (a.toNat - b.toNat)

theorem UInt64.toNat_saturatingAdd (a b : UInt64) :
    (a.saturatingAdd b).toNat = min (a.toNat + b.toNat) (2 ^ 64 - 1) := by
  rw [saturatingAdd, UInt64.toNat_ofNat_of_lt']
  exact lt_of_le_of_lt (min_le_right _ _) (by decide)

theorem UInt64.toNat_saturatingSub (a b : UInt64) :
    (a.saturatingSub b).toNat = a.toNat - b.toNat := by
  rw [saturatingSub, UInt64.toNat_ofNat_of_lt']
  exact lt_of_le_of_lt (Nat.sub_le _ _) a.toNat_lt
