import Prims.Lib.Bytes

/-!
# JSON texts

A writer of JSON texts that indents by two spaces. Strings are bytes, and control characters, quotes
and backslashes in them are escaped.

A value can be read off the start of a text, as long as a number is not followed by a digit. So no
object is written as the start of another one.

## Main definitions

* `Json`: values with natural numbers
* `Json.pretty`: their texts

## Main results

* `Json.pretty_append_inj`: a value is read off the start of a text
* `Json.object_eq_of_isPrefix`: no object is a part of another one
-/

inductive Json where
  | number (n : ℕ)
  | string (text : Bytes)
  | array (items : List Json)
  | object (fields : List (Bytes × Json))

namespace Json

/-! ## Writing -/

/-- The digit of a number below 16. -/
def hexDigit (n : ℕ) : UInt8 := UInt8.ofNat (if n < 10 then 0x30 + n else 0x57 + n)

/-- A byte of a string: a quote, a backslash or a control character is escaped. -/
def escape (b : UInt8) : Bytes :=
  match b with
  | 0x22 => [0x5c, 0x22]
  | 0x5c => [0x5c, 0x5c]
  | 0x08 => [0x5c, 0x62]
  | 0x09 => [0x5c, 0x74]
  | 0x0a => [0x5c, 0x6e]
  | 0x0c => [0x5c, 0x66]
  | 0x0d => [0x5c, 0x72]
  | b => if b < 0x20 then
      [0x5c, 0x75, 0x30, 0x30, hexDigit (b.toNat / 16), hexDigit (b.toNat % 16)]
    else [b]

def quote (text : Bytes) : Bytes := 0x22 :: text.flatMap escape ++ [0x22]

def decimal (n : ℕ) : Bytes := (Nat.toDigits 10 n).map fun c => UInt8.ofNat c.toNat

/-- A new line, with its indentation. -/
def newline (indent : ℕ) : Bytes := 0x0a :: List.replicate (2 * indent) 0x20

mutual

def pretty (indent : ℕ) : Json → Bytes
  | .number n => decimal n
  | .string text => quote text
  | .array [] => [0x5b, 0x5d]
  | .array (item :: items) =>
    0x5b :: (newline (indent + 1) ++ (pretty (indent + 1) item ++ prettyItems indent items))
  | .object [] => [0x7b, 0x7d]
  | .object ((key, value) :: fields) =>
    0x7b :: (newline (indent + 1) ++ (quote key ++ (0x3a :: 0x20 :: (pretty (indent + 1) value ++
      prettyFields indent fields))))

/-- The items after the first one, and the end of the array. -/
def prettyItems (indent : ℕ) : List Json → Bytes
  | [] => newline indent ++ [0x5d]
  | item :: items =>
    0x2c :: (newline (indent + 1) ++ (pretty (indent + 1) item ++ prettyItems indent items))

/-- The fields after the first one, and the end of the object. -/
def prettyFields (indent : ℕ) : List (Bytes × Json) → Bytes
  | [] => newline indent ++ [0x7d]
  | (key, value) :: fields =>
    0x2c :: (newline (indent + 1) ++ (quote key ++ (0x3a :: 0x20 :: (pretty (indent + 1) value ++
      prettyFields indent fields))))

end

/-! ## Numbers -/

def isDigit (b : UInt8) : Bool := 0x30 ≤ b && b ≤ 0x39

/-- What follows a number does not start with a digit. -/
def Stops (rest : Bytes) : Prop := rest.takeWhile isDigit = []

theorem stops_cons {b : UInt8} (h : isDigit b = false) (rest : Bytes) : Stops (b :: rest) := by
  rw [Stops, List.takeWhile_cons, h, if_neg Bool.false_ne_true]

theorem toNat_of_mem_toDigits {n : ℕ} {c : Char} (hc : c ∈ Nat.toDigits 10 n) :
    0x30 ≤ c.toNat ∧ c.toNat ≤ 0x39 :=
  Char.isDigit_iff_toNat.mp (Nat.isDigit_of_mem_toDigits (by decide) (by decide) hc)

theorem isDigit_of_mem_toDigits {n : ℕ} {c : Char} (hc : c ∈ Nat.toDigits 10 n) :
    isDigit (UInt8.ofNat c.toNat) = true := by
  obtain ⟨hlow, hhigh⟩ := toNat_of_mem_toDigits hc
  have hdigit : ∀ m < 0x3a, 0x30 ≤ m → isDigit (UInt8.ofNat m) = true := by decide
  exact hdigit c.toNat (by omega) hlow

theorem decimal_injective : Function.Injective decimal := by
  have hread : ∀ n, (decimal n).map (fun b => Char.ofNat b.toNat) = Nat.toDigits 10 n := by
    intro n
    rw [decimal, List.map_map]
    refine (List.map_congr_left fun c hc => ?_).trans (List.map_id _)
    obtain ⟨-, hhigh⟩ := toNat_of_mem_toDigits hc
    show Char.ofNat (c.toNat % 256) = c
    rw [Nat.mod_eq_of_lt (by omega), Char.ofNat_toNat]
  intro n n' h
  rw [← Nat.ofDigitChars_ten_toDigits (n := n), ← hread, h, hread, Nat.ofDigitChars_ten_toDigits]

/-- **A number is read off** the start of a text that goes on without a digit. -/
theorem decimal_append_inj {n n' : ℕ} {rest rest' : Bytes} (hrest : Stops rest)
    (hrest' : Stops rest') (h : decimal n ++ rest = decimal n' ++ rest') :
    n = n' ∧ rest = rest' := by
  have hread : ∀ m tail, Stops tail → (decimal m ++ tail).takeWhile isDigit = decimal m := by
    intro m tail htail
    rw [List.takeWhile_append_of_pos, htail, List.append_nil]
    intro b hb
    obtain ⟨c, hc, rfl⟩ := List.mem_map.mp hb
    exact isDigit_of_mem_toDigits hc
  have hn : decimal n = decimal n' := by
    rw [← hread n rest hrest, h, hread n' rest' hrest']
  rw [hn] at h
  exact ⟨decimal_injective hn, List.append_cancel_left h⟩

/-- A number starts with a digit. -/
theorem decimal_append_ne {b : UInt8} (hb : isDigit b = false) (n : ℕ) (rest tail : Bytes) :
    decimal n ++ rest ≠ b :: tail := by
  obtain ⟨c, digits, hdigits⟩ := List.exists_cons_of_ne_nil (Nat.toDigits_ne_nil (n := n) (b := 10))
  have hc := isDigit_of_mem_toDigits (n := n) (hdigits ▸ List.mem_cons_self)
  rw [decimal, hdigits]
  intro h
  obtain ⟨rfl, -⟩ := List.cons.inj h
  rw [hc] at hb
  cases hb

/-! ## Strings -/

/-- The bytes that are escaped. -/
def escaped : Bytes := 0x22 :: 0x5c :: (List.range 0x20).map UInt8.ofNat

theorem escape_of_not_mem {b : UInt8} (h : b ∉ escaped) : escape b = [b] := by
  have hall : ∀ n < 256, UInt8.ofNat n ∉ escaped → escape (UInt8.ofNat n) = [UInt8.ofNat n] := by
    decide +kernel
  rw [← UInt8.ofNat_toNat (x := b)] at h ⊢
  exact hall b.toNat b.toNat_lt h

/-- A string without characters to escape. -/
theorem quote_eq {text : Bytes} (h : ∀ b ∈ text, b ∉ escaped) :
    quote text = 0x22 :: text ++ [0x22] := by
  have hescape : text.flatMap escape = text := by
    rw [List.flatMap_congr fun b hb => escape_of_not_mem (h b hb), List.flatMap_singleton']
  rw [quote, hescape]

/-- An escape starts with a backslash, and no escape starts with another one. -/
theorem escape_of_mem : ∀ b ∈ escaped, (escape b).head? = some 0x5c ∧
    ∀ b' ∈ escaped, escape b <+: escape b' → b = b' := by
  decide +kernel

theorem escape_eq_cons {b : UInt8} :
    ∃ head tail, escape b = head :: tail ∧
      (b ∈ escaped → head = 0x5c) ∧ (b ∉ escaped → head = b ∧ tail = []) := by
  by_cases hb : b ∈ escaped
  · have hhead := (escape_of_mem b hb).1
    cases htext : escape b with
    | nil =>
      rw [htext] at hhead
      cases hhead
    | cons head tail =>
      rw [htext] at hhead
      exact ⟨head, tail, rfl, fun _ => Option.some.inj hhead, fun h => absurd hb h⟩
  · exact ⟨b, [], escape_of_not_mem hb, fun h => absurd h hb, fun _ => ⟨rfl, rfl⟩⟩

theorem escape_append_inj {b b' : UInt8} {rest rest' : Bytes}
    (h : escape b ++ rest = escape b' ++ rest') : b = b' ∧ rest = rest' := by
  have hb : b = b' := by
    obtain ⟨head, tail, heq, hmem, hnot⟩ := escape_eq_cons (b := b)
    obtain ⟨head', tail', heq', hmem', hnot'⟩ := escape_eq_cons (b := b')
    have hhead : head = head' := by
      rw [heq, heq'] at h
      exact (List.cons.inj h).1
    have hbackslash : (0x5c : UInt8) ∈ escaped := by decide
    by_cases hb : b ∈ escaped <;> by_cases hb' : b' ∈ escaped
    · rcases List.prefix_or_prefix_of_prefix (List.prefix_append _ rest)
        (h ▸ List.prefix_append _ rest') with hprefix | hprefix
      · exact (escape_of_mem b hb).2 b' hb' hprefix
      · exact ((escape_of_mem b' hb').2 b hb hprefix).symm
    -- a backslash is escaped, so it does not stand for itself
    · rw [← (hnot' hb').1, ← hhead, hmem hb] at hb'
      exact absurd hbackslash hb'
    · rw [← (hnot hb).1, hhead, hmem' hb'] at hb
      exact absurd hbackslash hb
    · rw [← (hnot hb).1, hhead, (hnot' hb').1]
  subst hb
  exact ⟨rfl, List.append_cancel_left h⟩

/-- An escaped byte is not the end of its string. -/
theorem escape_append_ne (b : UInt8) (rest tail : Bytes) : escape b ++ rest ≠ 0x22 :: tail := by
  obtain ⟨head, tail', heq, hmem, hnot⟩ := escape_eq_cons (b := b)
  rw [heq]
  intro h
  obtain ⟨rfl, -⟩ := List.cons.inj h
  by_cases hb : b ∈ escaped
  · exact absurd (hmem hb) (by decide)
  · obtain ⟨rfl, -⟩ := hnot hb
    exact hb (by decide)

/-- **A string is read off** the start of a text. -/
theorem quote_append_inj {text text' rest rest' : Bytes}
    (h : quote text ++ rest = quote text' ++ rest') : text = text' ∧ rest = rest' := by
  have hread : ∀ text text' : Bytes, text.flatMap escape ++ 0x22 :: rest =
      text'.flatMap escape ++ 0x22 :: rest' → text = text' ∧ rest = rest' := by
    intro text
    induction text with
    | nil =>
      rintro (_ | ⟨b', text'⟩) h
      · exact ⟨rfl, (List.cons.inj h).2⟩
      · rw [List.flatMap_cons, List.append_assoc] at h
        exact absurd h.symm (escape_append_ne _ _ _)
    | cons b text ih =>
      rintro (_ | ⟨b', text'⟩) h
      · rw [List.flatMap_cons, List.append_assoc] at h
        exact absurd h (escape_append_ne _ _ _)
      · rw [List.flatMap_cons, List.append_assoc, List.flatMap_cons, List.append_assoc] at h
        obtain ⟨rfl, htail⟩ := escape_append_inj h
        obtain ⟨rfl, hrest⟩ := ih text' htail
        exact ⟨rfl, hrest⟩
  simp only [quote, List.cons_append, List.append_assoc, List.nil_append] at h
  exact hread text text' (List.cons.inj h).2

/-! ## Values -/

theorem stops_prettyItems (indent : ℕ) (items : List Json) (rest : Bytes) :
    Stops (prettyItems indent items ++ rest) := by
  cases items <;> exact stops_cons rfl _

theorem stops_prettyFields (indent : ℕ) (fields : List (Bytes × Json)) (rest : Bytes) :
    Stops (prettyFields indent fields ++ rest) := by
  cases fields <;> exact stops_cons rfl _

mutual

/-- **A value is read off** the start of a text, as long as no digit follows a number. -/
theorem pretty_append_inj {indent : ℕ} {rest rest' : Bytes} (hstops : Stops rest)
    (hstops' : Stops rest') : ∀ value value' : Json,
      pretty indent value ++ rest = pretty indent value' ++ rest' → value = value' ∧ rest = rest'
  | .number n, value', h => by
    cases value' with
    | number n' =>
      obtain ⟨rfl, hrest⟩ := decimal_append_inj hstops hstops' h
      exact ⟨rfl, hrest⟩
    | string text => exact absurd h (decimal_append_ne rfl n _ _)
    | array items => cases items <;> exact absurd h (decimal_append_ne rfl n _ _)
    | object fields => cases fields <;> exact absurd h (decimal_append_ne rfl n _ _)
  | .string text, value', h => by
    cases value' with
    | number n' => exact absurd h.symm (decimal_append_ne rfl n' _ _)
    | string text' =>
      obtain ⟨rfl, hrest⟩ := quote_append_inj h
      exact ⟨rfl, hrest⟩
    | array items => cases items <;> cases h
    | object fields => cases fields <;> cases h
  | .array items, value', h => by
    cases value' with
    | number n' => exact absurd h.symm (by cases items <;> exact decimal_append_ne rfl n' _ _)
    | string text => cases items <;> cases h
    | array items' =>
      obtain ⟨rfl, hrest⟩ := array_append_inj items items' h
      exact ⟨rfl, hrest⟩
    | object fields => cases items <;> cases fields <;> cases h
  | .object fields, value', h => by
    cases value' with
    | number n' => exact absurd h.symm (by cases fields <;> exact decimal_append_ne rfl n' _ _)
    | string text => cases fields <;> cases h
    | array items => cases items <;> cases fields <;> cases h
    | object fields' =>
      obtain ⟨rfl, hrest⟩ := object_append_inj fields fields' h
      exact ⟨rfl, hrest⟩

theorem array_append_inj {indent : ℕ} {rest rest' : Bytes} : ∀ items items' : List Json,
    pretty indent (.array items) ++ rest = pretty indent (.array items') ++ rest' →
      items = items' ∧ rest = rest'
  | [], [], h => ⟨rfl, List.append_cancel_left h⟩
  | [], _ :: _, h => nomatch h
  | _ :: _, [], h => nomatch h
  | item :: items, item' :: items', h => by
    simp only [pretty, List.cons_append, List.append_assoc, List.cons.injEq, true_and,
      List.append_cancel_left_eq] at h
    obtain ⟨rfl, htail⟩ := pretty_append_inj (stops_prettyItems _ _ _) (stops_prettyItems _ _ _)
      item item' h
    obtain ⟨rfl, hrest⟩ := prettyItems_append_inj items items' htail
    exact ⟨rfl, hrest⟩

theorem prettyItems_append_inj {indent : ℕ} {rest rest' : Bytes} : ∀ items items' : List Json,
    prettyItems indent items ++ rest = prettyItems indent items' ++ rest' →
      items = items' ∧ rest = rest'
  | [], [], h => ⟨rfl, List.append_cancel_left h⟩
  | [], _ :: _, h => nomatch h
  | _ :: _, [], h => nomatch h
  | item :: items, item' :: items', h => by
    simp only [prettyItems, List.cons_append, List.append_assoc, List.cons.injEq, true_and,
      List.append_cancel_left_eq] at h
    obtain ⟨rfl, htail⟩ := pretty_append_inj (stops_prettyItems _ _ _) (stops_prettyItems _ _ _)
      item item' h
    obtain ⟨rfl, hrest⟩ := prettyItems_append_inj items items' htail
    exact ⟨rfl, hrest⟩

theorem object_append_inj {indent : ℕ} {rest rest' : Bytes} :
    ∀ fields fields' : List (Bytes × Json),
      pretty indent (.object fields) ++ rest = pretty indent (.object fields') ++ rest' →
        fields = fields' ∧ rest = rest'
  | [], [], h => ⟨rfl, List.append_cancel_left h⟩
  | [], _ :: _, h => nomatch h
  | _ :: _, [], h => nomatch h
  | (key, value) :: fields, (key', value') :: fields', h => by
    simp only [pretty, List.cons_append, List.append_assoc, List.cons.injEq, true_and,
      List.append_cancel_left_eq] at h
    obtain ⟨rfl, hvalue⟩ := quote_append_inj h
    obtain ⟨rfl, htail⟩ := pretty_append_inj (stops_prettyFields _ _ _)
      (stops_prettyFields _ _ _) value value' (List.cons.inj (List.cons.inj hvalue).2).2
    obtain ⟨rfl, hrest⟩ := prettyFields_append_inj fields fields' htail
    exact ⟨rfl, hrest⟩

theorem prettyFields_append_inj {indent : ℕ} {rest rest' : Bytes} :
    ∀ fields fields' : List (Bytes × Json),
      prettyFields indent fields ++ rest = prettyFields indent fields' ++ rest' →
        fields = fields' ∧ rest = rest'
  | [], [], h => ⟨rfl, List.append_cancel_left h⟩
  | [], _ :: _, h => nomatch h
  | _ :: _, [], h => nomatch h
  | (key, value) :: fields, (key', value') :: fields', h => by
    simp only [prettyFields, List.cons_append, List.append_assoc, List.cons.injEq, true_and,
      List.append_cancel_left_eq] at h
    obtain ⟨rfl, hvalue⟩ := quote_append_inj h
    obtain ⟨rfl, htail⟩ := pretty_append_inj (stops_prettyFields _ _ _)
      (stops_prettyFields _ _ _) value value' (List.cons.inj (List.cons.inj hvalue).2).2
    obtain ⟨rfl, hrest⟩ := prettyFields_append_inj fields fields' htail
    exact ⟨rfl, hrest⟩

end

/-- **No object is a part of another one.** -/
theorem object_eq_of_isPrefix {indent : ℕ} {fields fields' : List (Bytes × Json)}
    (h : pretty indent (.object fields) <+: pretty indent (.object fields')) :
    fields = fields' := by
  obtain ⟨rest, h⟩ := h
  have hwhole : pretty indent (.object fields) ++ rest = pretty indent (.object fields') ++ [] :=
    h.trans (List.append_nil _).symm
  exact (object_append_inj fields fields' hwhole).1

example : pretty 0 (.object [([0x61], .array [.number 12])]) =
    [0x7b, 0x0a, 0x20, 0x20, 0x22, 0x61, 0x22, 0x3a, 0x20, 0x5b, 0x0a, 0x20, 0x20, 0x20, 0x20,
      0x31, 0x32, 0x0a, 0x20, 0x20, 0x5d, 0x0a, 0x7d] := by decide

end Json
