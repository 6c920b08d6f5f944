import Mathlib.Data.List.DropRight
import Prims.Lib.Bytes

/-!
# Text

Strings are trimmed of the Unicode white space at both ends, and byte strings are written as text
with two hexadecimal digits for each byte. Digits of both cases are read; the lower case is
written. Numbers are read from decimal text, with a sign or without, when they fit in a machine
word.

## Main definitions

* `Text.trim`: a text without the white space around it
* `Text.hexEncode`, `Text.hexDecode`: byte strings as hexadecimal text
* `Text.parseUInt64`: the number that a decimal text writes

## Main results

* `Text.hexDecode_hexEncode`, `Text.parseUInt64_toDigits`: what is written is read back
-/

namespace Text

/-- The characters with the Unicode property `White_Space`. -/
def isWhitespace (c : Char) : Bool :=
  let n := c.toNat
  (9 ≤ n ∧ n ≤ 13) ∨ n ∈ [0x20, 0x85, 0xA0, 0x1680] ∨ (0x2000 ≤ n ∧ n ≤ 0x200A) ∨
    n ∈ [0x2028, 0x2029, 0x202F, 0x205F, 0x3000]

/-- A text without the white space around it. -/
def trim (text : List Char) : List Char :=
  ((text.dropWhile isWhitespace).reverse.dropWhile isWhitespace).reverse

/-! ## Hexadecimal text -/

def hexDigits : List Char := "0123456789abcdef".toList

/-- The value of a digit of either case. -/
def hexValue (c : Char) : Option UInt8 :=
  let n := c.toNat
  if 0x30 ≤ n ∧ n ≤ 0x39 then some (UInt8.ofNat (n - 0x30))
  else if 0x61 ≤ n ∧ n ≤ 0x66 then some (UInt8.ofNat (n - 0x61 + 10))
  else if 0x41 ≤ n ∧ n ≤ 0x46 then some (UInt8.ofNat (n - 0x41 + 10))
  else none

/-- A digit of either case. -/
def isHexDigit (c : Char) : Bool := (hexValue c).isSome

/-- The byte string that a text of digits writes; a text of odd length writes none. -/
def hexDecode : List Char → Option Bytes
  | [] => some []
  | [_] => none
  | high :: low :: rest => do
    let high ← hexValue high
    let low ← hexValue low
    let bytes ← hexDecode rest
    return (high * 16 + low) :: bytes

def hexDigit (n : ℕ) : Char := hexDigits.getD n '0'

def hexEncode (bytes : Bytes) : List Char :=
  bytes.flatMap fun b => [hexDigit (b.toNat / 16), hexDigit (b.toNat % 16)]

theorem hexValue_hexDigit : ∀ n < 16, hexValue (hexDigit n) = some (UInt8.ofNat n) := by
  decide

theorem not_isWhitespace_hexDigit : ∀ n < 16, isWhitespace (hexDigit n) = false := by
  decide

theorem hexDigit_ne_x : ∀ n < 16, hexDigit n ≠ 'x' := by
  decide

/-- **What is written is read back.** -/
theorem hexDecode_hexEncode (bytes : Bytes) : hexDecode (hexEncode bytes) = some bytes := by
  induction bytes with
  | nil => rfl
  | cons b bytes ih =>
    have hb := b.toNat_lt
    have hbyte : UInt8.ofNat (b.toNat / 16) * 16 + UInt8.ofNat (b.toNat % 16) = b := by
      apply UInt8.toNat_inj.mp
      simp only [UInt8.toNat_add, UInt8.toNat_mul, UInt8.toNat_ofNat', UInt8.reduceToNat]
      omega
    rw [hexEncode, List.flatMap_cons, List.cons_append, List.cons_append, List.nil_append]
    show hexDecode (_ :: _ :: hexEncode bytes) = _
    rw [hexDecode, hexValue_hexDigit _ (by omega), hexValue_hexDigit _ (by omega), ih]
    simp only [Option.bind_eq_bind, Option.bind_some, hbyte]
    rfl

theorem hexEncode_injective : Function.Injective hexEncode := by
  intro bytes bytes' h
  have hread := congrArg hexDecode h
  rwa [hexDecode_hexEncode, hexDecode_hexEncode, Option.some_inj] at hread

theorem hexDigit_lt : ∀ n < 16, ∀ m < n, hexDigit m < hexDigit n := by
  decide

/-- **Hexadecimal text is in the order of the bytes** that it writes. -/
theorem hexEncode_lt {a b : Bytes} (h : compare a b = .lt) : hexEncode a < hexEncode b := by
  induction a generalizing b with
  | nil =>
    cases b with
    | nil => cases h
    | cons y b => exact List.nil_lt_cons _ _
  | cons x a ih =>
    cases b with
    | nil => cases h
    | cons y b =>
      rw [List.compare_cons_cons] at h
      simp only [hexEncode, List.flatMap_cons, List.cons_append, List.nil_append,
        List.cons_lt_cons_iff]
      have hx := x.toNat_lt
      have hy := y.toNat_lt
      cases hxy : compare x y with
      | gt => simp [hxy] at h
      | eq =>
        obtain rfl : x = y := Std.LawfulEqCmp.eq_of_compare hxy
        rw [hxy] at h
        exact .inr ⟨rfl, .inr ⟨rfl, ih h⟩⟩
      | lt =>
        have hlt : x.toNat < y.toNat := UInt8.lt_iff_toNat_lt.mp (Std.compare_eq_lt.mp hxy)
        rcases (Nat.div_le_div_right (c := 16) hlt.le).lt_or_eq with hhigh | hhigh
        · exact .inl (hexDigit_lt _ (by omega) _ hhigh)
        · exact .inr ⟨congrArg hexDigit hhigh, .inl (hexDigit_lt _ (by omega) _ (by omega))⟩

@[simp] theorem length_hexEncode (bytes : Bytes) : (hexEncode bytes).length = 2 * bytes.length := by
  induction bytes with
  | nil => rfl
  | cons b bytes ih =>
    have hcons : (hexEncode (b :: bytes)).length = 2 + (hexEncode bytes).length := by
      rw [hexEncode, List.flatMap_cons, List.length_append]
      rfl
    rw [hcons, ih, List.length_cons]
    omega

/-- The characters of hexadecimal text are digits. -/
theorem mem_hexEncode {bytes : Bytes} {c : Char} (h : c ∈ hexEncode bytes) :
    ∃ n < 16, c = hexDigit n := by
  obtain ⟨b, -, hc⟩ := List.mem_flatMap.mp h
  have hb := b.toNat_lt
  rcases List.mem_cons.mp hc with rfl | hc
  · exact ⟨b.toNat / 16, by omega, rfl⟩
  · rw [List.mem_singleton] at hc
    exact ⟨b.toNat % 16, by omega, hc⟩

theorem hexDecode_cons_cons {high low : Char} {rest : List Char} {bytes : Bytes} :
    hexDecode (high :: low :: rest) = some bytes ↔ ∃ upper lower bytes',
      hexValue high = some upper ∧ hexValue low = some lower ∧ hexDecode rest = some bytes' ∧
        (upper * 16 + lower) :: bytes' = bytes := by
  rw [hexDecode]
  cases hexValue high <;> cases hexValue low <;> cases hexDecode rest <;> simp

/-- What is read has digits only. -/
theorem isHexDigit_of_hexDecode {text : List Char} {bytes : Bytes}
    (h : hexDecode text = some bytes) : ∀ c ∈ text, isHexDigit c := by
  fun_induction hexDecode text generalizing bytes with
  | case1 => nofun
  | case2 => cases h
  | case3 high low rest ih =>
    obtain ⟨upper, lower, bytes', hhigh, hlow, hrest, -⟩ := hexDecode_cons_cons.mp h
    rw [List.forall_mem_cons, List.forall_mem_cons]
    exact ⟨Option.isSome_of_eq_some hhigh, Option.isSome_of_eq_some hlow, ih hrest⟩

theorem dropWhile_isWhitespace_eq_self {text : List Char}
    (h : ∀ c ∈ text, isWhitespace c = false) : text.dropWhile isWhitespace = text := by
  cases text with
  | nil => rfl
  | cons c text => rw [List.dropWhile_cons, h c List.mem_cons_self, if_neg Bool.false_ne_true]

/-- A text without white space stays as it is. -/
theorem trim_eq_self {text : List Char} (h : ∀ c ∈ text, isWhitespace c = false) :
    trim text = text := by
  have hreverse : ∀ c ∈ text.reverse, isWhitespace c = false :=
    fun c hc => h c (List.mem_reverse.mp hc)
  rw [trim, dropWhile_isWhitespace_eq_self h, dropWhile_isWhitespace_eq_self hreverse,
    List.reverse_reverse]

/-- A trimmed text is trimmed. -/
theorem trim_trim (text : List Char) : trim (trim text) = trim text := by
  let start := text.dropWhile isWhitespace
  have hstart : start.dropWhile isWhitespace = start := List.dropWhile_idempotent isWhitespace text
  have htrim : trim text = start.rdropWhile isWhitespace := rfl
  have hkept : (start.rdropWhile isWhitespace).dropWhile isWhitespace =
      start.rdropWhile isWhitespace := by
    rw [List.dropWhile_eq_self_iff] at hstart ⊢
    intro hlength
    have hstarts := List.rdropWhile_prefix isWhitespace start
    rw [hstarts.getElem hlength]
    exact hstart _
  rw [htrim, trim, hkept]
  exact List.rdropWhile_idempotent isWhitespace start

/-- White space after a text that begins and ends with something else. -/
theorem trim_append {text spaces : List Char} {first last : Char} (hfirst : text.head? = some first)
    (hlast : text.getLast? = some last) (hbegins : isWhitespace first = false)
    (hends : isWhitespace last = false) (hspaces : ∀ c ∈ spaces, isWhitespace c) :
    trim (text ++ spaces) = text := by
  have hstart : (text ++ spaces).dropWhile isWhitespace = text ++ spaces := by
    obtain ⟨rest, rfl⟩ := List.head?_eq_some_iff.mp hfirst
    rw [List.cons_append, List.dropWhile_cons, hbegins, if_neg Bool.false_ne_true]
  have hend : text.reverse.dropWhile isWhitespace = text.reverse := by
    rw [← List.head?_reverse] at hlast
    obtain ⟨rest, hreverse⟩ := List.head?_eq_some_iff.mp hlast
    rw [hreverse, List.dropWhile_cons, hends, if_neg Bool.false_ne_true]
  have hafter : ∀ c ∈ spaces.reverse, isWhitespace c := fun c hc =>
    hspaces c (List.mem_reverse.mp hc)
  rw [trim, hstart, List.reverse_append, List.dropWhile_append_of_pos hafter, hend,
    List.reverse_reverse]

/-- A text that does not begin with white space keeps its first character. -/
theorem head?_trim {text : List Char} {first : Char} (hfirst : text.head? = some first)
    (hbegins : isWhitespace first = false) : (trim text).head? = some first := by
  obtain ⟨rest, rfl⟩ := List.head?_eq_some_iff.mp hfirst
  have hstart : (first :: rest).dropWhile isWhitespace = first :: rest := by
    rw [List.dropWhile_cons, hbegins, if_neg Bool.false_ne_true]
  have htrim : trim (first :: rest) = (first :: rest).rdropWhile isWhitespace := by
    rw [trim, hstart]
    rfl
  have hstarts := List.rdropWhile_prefix isWhitespace (first :: rest)
  rw [← htrim] at hstarts
  cases hkept : trim (first :: rest) with
  | nil =>
    rw [htrim, List.rdropWhile_eq_nil_iff] at hkept
    exact absurd (hkept first List.mem_cons_self) (by rw [hbegins]; exact Bool.false_ne_true)
  | cons c kept =>
    rw [hkept, List.cons_prefix_cons] at hstarts
    rw [hstarts.1, List.head?_cons]

theorem trim_hexEncode (bytes : Bytes) : trim (hexEncode bytes) = hexEncode bytes := by
  apply trim_eq_self
  intro c hc
  obtain ⟨n, hn, rfl⟩ := mem_hexEncode hc
  exact not_isWhitespace_hexDigit n hn

/-! ## Decimal text -/

/-- The number that some digits write after others, when it fits in 64 bits. -/
def parseDigits : List Char → ℕ → Option ℕ
  | [], n => some n
  | c :: text, n =>
    if c.isDigit ∧ 10 * n + (c.toNat - '0'.toNat) < 2 ^ 64 then
      parseDigits text (10 * n + (c.toNat - '0'.toNat))
    else none

/-- The number that a decimal text writes. A plus sign may stand before the digits. -/
def parseUInt64 : List Char → Option UInt64
  | [] => none
  | ['+'] => none
  | '+' :: digits => (parseDigits digits 0).map UInt64.ofNat
  | digits => (parseDigits digits 0).map UInt64.ofNat

/-- The digits of a number only get more, so that nothing overflows before the end. -/
theorem parseDigits_eq {text : List Char} (hdigits : ∀ c ∈ text, c.isDigit) {n : ℕ}
    (hlt : Nat.ofDigitChars 10 text n < 2 ^ 64) :
    parseDigits text n = some (Nat.ofDigitChars 10 text n) := by
  induction text generalizing n with
  | nil => rfl
  | cons c text ih =>
    rw [List.forall_mem_cons] at hdigits
    rw [Nat.ofDigitChars_cons] at hlt ⊢
    have hnext : 10 * n + (c.toNat - '0'.toNat) < 2 ^ 64 := by
      refine lt_of_le_of_lt ?_ hlt
      rw [Nat.ofDigitChars_eq_ofDigitChars_zero]
      exact Nat.le_add_right_of_le (Nat.le_mul_of_pos_left _ (Nat.pow_pos (by decide)))
    rw [parseDigits, if_pos ⟨hdigits.1, hnext⟩]
    exact ih hdigits.2 hlt

/-- **The digits of a number are read back.** -/
theorem parseUInt64_toDigits (n : UInt64) : parseUInt64 (Nat.toDigits 10 n.toNat) = some n := by
  have hdigits : ∀ c ∈ Nat.toDigits 10 n.toNat, c.isDigit := fun c hc =>
    Nat.isDigit_of_mem_toDigits (by decide) (by decide) hc
  have hvalue : Nat.ofDigitChars 10 (Nat.toDigits 10 n.toNat) 0 = n.toNat :=
    Nat.ofDigitChars_ten_toDigits
  have hparse : parseDigits (Nat.toDigits 10 n.toNat) 0 = some n.toNat := by
    rw [parseDigits_eq hdigits (by rw [hvalue]; exact n.toNat_lt), hvalue]
  unfold parseUInt64
  split
  · next hnil => exact absurd hnil Nat.toDigits_ne_nil
  · next hsign =>
    rw [hsign] at hdigits
    exact absurd (hdigits '+' List.mem_cons_self) (by decide)
  · next digits _ hsign =>
    rw [hsign] at hdigits
    exact absurd (hdigits '+' List.mem_cons_self) (by decide)
  · rw [hparse, Option.map_some, UInt64.ofNat_toNat]

end Text
