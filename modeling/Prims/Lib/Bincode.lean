import Prims.Lib.Bytes

/-!
# A length-prefixed binary format

The format of `bincode` 1 with its default options: integers have a fixed width and are written
little-endian, a sequence is its length as a 64-bit integer followed by its elements, an optional
value is a tag byte, a variant of an enumeration is a 32-bit tag followed by its fields, and the
fields of a structure follow one another in their order of declaration. A decoder reads a prefix
of its input and leaves the rest.

A codec carries its own correctness: what it writes it reads back, and what it accepts is what it
would have written. A length takes 64 bits, so a value round-trips when its sequences are shorter
than `2 ^ 64`; `Fits` says so, and it holds of every value that was decoded and of every value
whose encoding is itself shorter than `2 ^ 64`.

## Main definitions

* `Codec α`: the encoder and the decoder of `α`, with their laws
* `Variants α`: the part of an enumeration's codec after the tag
* `serialize`, `deserialize`: the two entry points; `deserialize` ignores trailing bytes

## Main results

* `deserialize_serialize`: decoding inverts encoding
* `deserialize_eq_ok_iff`: what is decoded is a prefix of the input
* `serialize_injective`: distinct fitting values have distinct encodings
* `length_serialize_list`, `length_serialize_bytes`: the lengths of the encodings
-/

namespace Bincode

/-- The reasons a decoder stops. -/
inductive DecodeError where
  | unexpectedEof
  | invalidTag (tag : ℕ)
  | invalidUtf8
  deriving DecidableEq, Repr

/-- **A codec**: an encoder and a decoder that invert one another. -/
class Codec (α : Type) where
  serialize : α → Bytes
  decode : Bytes → Except DecodeError (α × Bytes)
  /-- Every sequence inside the value is shorter than `2 ^ 64`. -/
  Fits : α → Prop
  decode_serialize : ∀ {a : α}, Fits a → ∀ rest, decode (serialize a ++ rest) = .ok (a, rest)
  decode_sound : ∀ {bs rest : Bytes} {a : α}, decode bs = .ok (a, rest) →
    bs = serialize a ++ rest ∧ Fits a
  fits_of_length : ∀ {a : α}, (serialize a).length < 2 ^ 64 → Fits a
  length_pos : ∀ a : α, 0 < (serialize a).length

export Codec (serialize)

open Codec (decode Fits decode_serialize decode_sound fits_of_length length_pos)

/-- Decode a value from the front of a byte string, whatever follows it. -/
def deserialize {α : Type} [Codec α] (bs : Bytes) : Except DecodeError α :=
  (decode bs).map Prod.fst

section Laws

variable {α : Type} [Codec α]

theorem deserialize_serialize {a : α} (ha : Fits a) :
    deserialize (serialize a) = .ok a := by
  have h := decode_serialize ha []
  rw [List.append_nil] at h
  rw [deserialize, h]
  rfl

/-- A decoded value is a prefix of its input, and it fits. -/
theorem of_deserialize {bs : Bytes} {a : α} (h : deserialize bs = .ok a) :
    (∃ rest, bs = serialize a ++ rest) ∧ Fits a := by
  unfold deserialize at h
  cases hd : decode (α := α) bs with
  | error e => simp [hd, Except.map] at h
  | ok p =>
    obtain ⟨b, rest⟩ := p
    simp only [hd, Except.map, Except.ok.injEq] at h
    subst h
    obtain ⟨hbs, hfit⟩ := decode_sound hd
    exact ⟨⟨rest, hbs⟩, hfit⟩

/-- **Decoding, exactly**: a value that fits is decoded from the byte strings that start with its
encoding, and from no others. -/
theorem deserialize_eq_ok_iff {bs : Bytes} {a : α} :
    deserialize bs = .ok a ↔ Fits a ∧ serialize a <+: bs := by
  constructor
  · intro h
    obtain ⟨⟨rest, rfl⟩, hfit⟩ := of_deserialize h
    exact ⟨hfit, List.prefix_append _ _⟩
  · rintro ⟨hfit, rest, rfl⟩
    rw [deserialize, decode_serialize hfit rest]
    rfl

/-- No encoding is a proper prefix of another one. -/
theorem eq_of_serialize_isPrefix {a b : α} (ha : Fits a) (hb : Fits b)
    (h : serialize a <+: serialize b) : a = b := by
  have hdecode : deserialize (serialize b) = .ok a := deserialize_eq_ok_iff.mpr ⟨ha, h⟩
  rw [deserialize_serialize hb] at hdecode
  exact (Except.ok.inj hdecode).symm

theorem serialize_injective {a b : α} (ha : Fits a) (hb : Fits b)
    (h : serialize a = serialize b) : a = b := by
  have h' := deserialize_serialize ha
  rw [h, deserialize_serialize hb] at h'
  exact (Except.ok.inj h').symm

/-- The values that fit into memory: the lengths of their parts are machine words. -/
abbrev Fitting (α : Type) [Codec α] : Type := { a : α // Fits a }

end Laws

/-! ## Integers -/

/-- Split off the first `n` bytes. -/
def takeBytes (n : ℕ) (bs : Bytes) : Except DecodeError (Bytes × Bytes) :=
  if n ≤ bs.length then .ok (bs.take n, bs.drop n) else .error .unexpectedEof

theorem takeBytes_append {n : ℕ} {b : Bytes} (hn : b.length = n) (rest : Bytes) :
    takeBytes n (b ++ rest) = .ok (b, rest) := by
  subst hn
  simp [takeBytes]

theorem takeBytes_sound {n : ℕ} {bs b rest : Bytes} (h : takeBytes n bs = .ok (b, rest)) :
    bs = b ++ rest ∧ b.length = n := by
  unfold takeBytes at h
  split at h
  · next hn =>
    obtain ⟨rfl, rfl⟩ := Prod.mk.inj (Except.ok.inj h)
    exact ⟨(List.take_append_drop n bs).symm, by simpa using hn⟩
  · cases h

/-- The codec of an integer type that is the numbers below `256 ^ w`. -/
@[reducible] def Codec.ofWord {α : Type} (w : ℕ) (hw : 0 < w) (toNat : α → ℕ) (ofNat : ℕ → α)
    (hlt : ∀ a, toNat a < 256 ^ w) (hto : ∀ n, n < 256 ^ w → toNat (ofNat n) = n)
    (hof : ∀ a, ofNat (toNat a) = a) : Codec α where
  serialize a := leBytes w (toNat a)
  decode bs := (takeBytes w bs).map fun p => (ofNat (leNat p.1), p.2)
  Fits _ := True
  decode_serialize := by
    intro a _ rest
    rw [takeBytes_append (length_leBytes _ _)]
    simp only [Except.map, leNat_leBytes, Nat.mod_eq_of_lt (hlt a), hof]
  decode_sound := by
    intro bs rest a h
    cases hp : takeBytes w bs with
    | error e => simp [hp, Except.map] at h
    | ok p =>
      obtain ⟨b, rest'⟩ := p
      obtain ⟨rfl, rfl⟩ := takeBytes_sound hp
      rw [hp] at h
      simp only [Except.map, Except.ok.injEq, Prod.mk.injEq] at h
      obtain ⟨rfl, rfl⟩ := h
      rw [hto _ (leNat_lt b), leBytes_leNat]
      exact ⟨rfl, trivial⟩
  fits_of_length _ := trivial
  length_pos _ := by simpa using hw

instance : Codec UInt8 :=
  Codec.ofWord 1 (by decide) UInt8.toNat UInt8.ofNat (fun a => a.toNat_lt)
    (fun n hn => by simpa using Nat.mod_eq_of_lt hn) (fun a => by simp)

instance : Codec UInt16 :=
  Codec.ofWord 2 (by decide) UInt16.toNat UInt16.ofNat (fun a => a.toNat_lt)
    (fun n hn => by simpa using Nat.mod_eq_of_lt hn) (fun a => by simp)

instance : Codec UInt32 :=
  Codec.ofWord 4 (by decide) UInt32.toNat UInt32.ofNat (fun a => a.toNat_lt)
    (fun n hn => by simpa using Nat.mod_eq_of_lt hn) (fun a => by simp)

instance : Codec UInt64 :=
  Codec.ofWord 8 (by decide) UInt64.toNat UInt64.ofNat (fun a => a.toNat_lt)
    (fun n hn => by simpa using Nat.mod_eq_of_lt hn) (fun a => by simp)

/-! ## Structures: products and renamings -/

section Compound

variable {α β : Type}

instance [Codec α] [Codec β] : Codec (α × β) where
  serialize p := serialize p.1 ++ serialize p.2
  decode bs := do
    let (a, bs) ← decode bs
    let (b, bs) ← decode bs
    return ((a, b), bs)
  Fits p := Fits p.1 ∧ Fits p.2
  decode_serialize := by
    rintro ⟨a, b⟩ ⟨ha, hb⟩ rest
    simp only [List.append_assoc, decode_serialize ha, decode_serialize hb, bind, Except.bind,
      pure, Except.pure]
  decode_sound := by
    rintro bs rest ⟨a, b⟩ h
    cases h₁ : decode (α := α) bs with
    | error e => simp [h₁, bind, Except.bind] at h
    | ok p =>
      obtain ⟨a', bs₁⟩ := p
      cases h₂ : decode (α := β) bs₁ with
      | error e => simp [h₁, h₂, bind, Except.bind] at h
      | ok q =>
        obtain ⟨b', bs₂⟩ := q
        simp only [h₁, h₂, bind, Except.bind, pure, Except.pure, Except.ok.injEq,
          Prod.mk.injEq] at h
        obtain ⟨⟨rfl, rfl⟩, rfl⟩ := h
        obtain ⟨rfl, hfit₁⟩ := decode_sound h₁
        obtain ⟨rfl, hfit₂⟩ := decode_sound h₂
        exact ⟨by simp, hfit₁, hfit₂⟩
  fits_of_length := by
    rintro ⟨a, b⟩ h
    simp only [List.length_append] at h
    exact ⟨fits_of_length (show (serialize a).length < 2 ^ 64 by omega),
      fits_of_length (show (serialize b).length < 2 ^ 64 by omega)⟩
  length_pos p := by
    have := length_pos p.1
    simp only [List.length_append]
    omega

/-- The codec of a structure, through the tuple of its fields. -/
@[reducible] def Codec.ofEquiv [Codec β] (e : α ≃ β) : Codec α where
  serialize a := serialize (e a)
  decode bs := (decode bs).map fun p => (e.symm p.1, p.2)
  Fits a := Fits (e a)
  decode_serialize := by
    intro a ha rest
    simp [decode_serialize ha, Except.map]
  decode_sound := by
    intro bs rest a h
    cases hd : decode (α := β) bs with
    | error e => simp [hd, Except.map] at h
    | ok p =>
      obtain ⟨b, rest'⟩ := p
      simp only [hd, Except.map, Except.ok.injEq, Prod.mk.injEq] at h
      obtain ⟨rfl, rfl⟩ := h
      simpa using decode_sound hd
  fits_of_length h := fits_of_length h
  length_pos a := length_pos (e a)

end Compound

/-! ## Sequences -/

section Sequences

variable {α : Type} [Codec α]

/-- Decode `n` values in a row. -/
def decodeMany (α : Type) [Codec α] : ℕ → Bytes → Except DecodeError (List α × Bytes)
  | 0, bs => .ok ([], bs)
  | n + 1, bs => do
    let (a, bs) ← decode bs
    let (as, bs) ← decodeMany α n bs
    return (a :: as, bs)

theorem decodeMany_flatMap {l : List α} (hl : ∀ a ∈ l, Fits a) (rest : Bytes) :
    decodeMany α l.length (l.flatMap serialize ++ rest) = .ok (l, rest) := by
  induction l with
  | nil => rfl
  | cons a l ih =>
    simp only [List.mem_cons, forall_eq_or_imp] at hl
    simp only [List.length_cons, decodeMany, List.flatMap_cons, List.append_assoc,
      decode_serialize hl.1, bind, Except.bind, ih hl.2, pure, Except.pure]

theorem decodeMany_sound {n : ℕ} {bs rest : Bytes} {l : List α}
    (h : decodeMany α n bs = .ok (l, rest)) :
    bs = l.flatMap serialize ++ rest ∧ l.length = n ∧ ∀ a ∈ l, Fits a := by
  induction n generalizing bs rest l with
  | zero =>
    obtain ⟨rfl, rfl⟩ := Prod.mk.inj (Except.ok.inj h)
    simp
  | succ n ih =>
    cases h₁ : decode (α := α) bs with
    | error e => simp [decodeMany, h₁, bind, Except.bind] at h
    | ok p =>
      obtain ⟨a, bs₁⟩ := p
      cases h₂ : decodeMany α n bs₁ with
      | error e => simp [decodeMany, h₁, h₂, bind, Except.bind] at h
      | ok q =>
        obtain ⟨as, bs₂⟩ := q
        simp only [decodeMany, h₁, h₂, bind, Except.bind, pure, Except.pure, Except.ok.injEq,
          Prod.mk.injEq] at h
        obtain ⟨rfl, rfl⟩ := h
        obtain ⟨rfl, hfit⟩ := decode_sound h₁
        obtain ⟨rfl, rfl, hfits⟩ := ih h₂
        exact ⟨by simp, by simp, by simpa using ⟨hfit, hfits⟩⟩

theorem length_le_flatMap_serialize (l : List α) : l.length ≤ (l.flatMap serialize).length := by
  induction l with
  | nil => simp
  | cons a l ih =>
    have := length_pos a
    simp only [List.length_cons, List.flatMap_cons, List.length_append]
    omega

theorem length_serialize_le_flatMap {l : List α} {a : α} (ha : a ∈ l) :
    (serialize a).length ≤ (l.flatMap serialize).length := by
  obtain ⟨s, t, rfl⟩ := List.append_of_mem ha
  simp only [List.flatMap_append, List.flatMap_cons, List.length_append]
  omega

instance : Codec (List α) where
  serialize l := serialize (UInt64.ofNat l.length) ++ l.flatMap serialize
  decode bs := do
    let (n, bs) ← decode (α := UInt64) bs
    decodeMany α n.toNat bs
  Fits l := l.length < 2 ^ 64 ∧ ∀ a ∈ l, Fits a
  decode_serialize := by
    rintro l ⟨hlen, hl⟩ rest
    have hn : (UInt64.ofNat l.length).toNat = l.length := by
      rw [UInt64.toNat_ofNat', Nat.mod_eq_of_lt hlen]
    rw [List.append_assoc, decode_serialize trivial]
    simp only [bind, Except.bind, hn]
    exact decodeMany_flatMap hl rest
  decode_sound := by
    intro bs rest l h
    cases h₁ : decode (α := UInt64) bs with
    | error e => simp [h₁, bind, Except.bind] at h
    | ok p =>
      obtain ⟨n, bs₁⟩ := p
      simp only [h₁, bind, Except.bind] at h
      obtain ⟨rfl, -⟩ := decode_sound h₁
      obtain ⟨rfl, hn, hfits⟩ := decodeMany_sound h
      rw [hn]
      exact ⟨by simp, n.toNat_lt, hfits⟩
  fits_of_length := by
    intro l h
    simp only [List.length_append] at h
    -- every element takes a byte at least, so the bytes bound their number
    have := length_le_flatMap_serialize l
    refine ⟨by omega, fun a ha => fits_of_length ?_⟩
    have := length_serialize_le_flatMap ha
    omega
  length_pos l := by
    have := length_pos (UInt64.ofNat l.length)
    simp only [List.length_append]
    omega

end Sequences

/-- The encoding of a byte string: its length, then the bytes themselves. -/
theorem serialize_bytes (b : Bytes) : serialize b = leBytes 8 (b.length % 2 ^ 64) ++ b := by
  have hcons : ∀ x : UInt8, serialize x = [x] := fun x => by
    show leBytes 1 x.toNat = [x]
    simp [leBytes]
  have hflat : ∀ b : Bytes, b.flatMap serialize = b := fun b => by
    induction b with
    | nil => rfl
    | cons x b ih => rw [List.flatMap_cons, hcons, ih, List.singleton_append]
  show leBytes 8 (UInt64.ofNat b.length).toNat ++ b.flatMap serialize = _
  rw [hflat, UInt64.toNat_ofNat']

/-! ## Arrays, optional values, strings and truth values -/

/-- A byte array is written without a length. -/
instance {n : ℕ} [NeZero n] : Codec (List.Vector UInt8 n) where
  serialize v := v.toList
  decode bs := match takeBytes n bs with
    | .error e => .error e
    | .ok (b, rest) => match b.toVector? n with
      | some v => .ok (v, rest)
      | none => .error .unexpectedEof
  Fits _ := True
  decode_serialize := by
    intro v _ rest
    simp [takeBytes_append v.toList_length]
  decode_sound := by
    intro bs rest v h
    cases hp : takeBytes n bs with
    | error e => simp [hp] at h
    | ok p =>
      obtain ⟨b, rest'⟩ := p
      obtain ⟨rfl, -⟩ := takeBytes_sound hp
      cases hv : b.toVector? n with
      | none => simp [hp, hv] at h
      | some v' =>
        simp only [hp, hv, Except.ok.injEq, Prod.mk.injEq] at h
        obtain ⟨rfl, rfl⟩ := h
        exact ⟨by rw [Bytes.toVector?_eq_some.mp hv], trivial⟩
  fits_of_length _ := trivial
  length_pos v := by simpa using NeZero.pos n

instance {α : Type} [Codec α] : Codec (Option α) where
  serialize
    | none => [0]
    | some a => 1 :: serialize a
  decode
    | [] => .error .unexpectedEof
    | 0 :: bs => .ok (none, bs)
    | 1 :: bs => (decode bs).map fun p => (some p.1, p.2)
    | b :: _ => .error (.invalidTag b.toNat)
  Fits o := ∀ a ∈ o, Fits a
  decode_serialize := by
    rintro (_ | a) ha rest
    · rfl
    · simp [decode_serialize (ha a rfl), Except.map]
  decode_sound := by
    intro bs rest o h
    split at h
    · cases h
    · obtain ⟨rfl, rfl⟩ := Prod.mk.inj (Except.ok.inj h)
      simp
    · next bs =>
      cases hd : decode (α := α) bs with
      | error e => simp [hd, Except.map] at h
      | ok p =>
        obtain ⟨a, rest'⟩ := p
        simp only [hd, Except.map, Except.ok.injEq, Prod.mk.injEq] at h
        obtain ⟨rfl, rfl⟩ := h
        obtain ⟨rfl, hfit⟩ := decode_sound hd
        simpa using hfit
    · cases h
  fits_of_length := by
    rintro (_ | a) h
    · simp
    · simp only [List.length_cons] at h
      simpa using fits_of_length (by omega)
  length_pos o := by cases o <;> simp

instance : Codec Bool where
  serialize b := [if b then 1 else 0]
  decode
    | [] => .error .unexpectedEof
    | 0 :: bs => .ok (false, bs)
    | 1 :: bs => .ok (true, bs)
    | b :: _ => .error (.invalidTag b.toNat)
  Fits _ := True
  decode_serialize := by
    rintro (_ | _) _ rest <;> rfl
  decode_sound := by
    intro bs rest b h
    split at h
    · cases h
    · obtain ⟨rfl, rfl⟩ := Prod.mk.inj (Except.ok.inj h)
      exact ⟨rfl, trivial⟩
    · obtain ⟨rfl, rfl⟩ := Prod.mk.inj (Except.ok.inj h)
      exact ⟨rfl, trivial⟩
    · cases h
  fits_of_length _ := trivial
  length_pos _ := by simp

/-- The bytes of a string's UTF-8 encoding. -/
def utf8 (s : String) : Bytes := s.toByteArray.data.toList

theorem utf8_injective : Function.Injective utf8 := by
  intro s s' h
  apply String.toByteArray_inj.mp
  exact ByteArray.ext (Array.toList_inj.mp h)

/-- The string with the given encoding, when there is one. -/
def fromUtf8 (b : Bytes) : Option String :=
  if h : (ByteArray.mk b.toArray).IsValidUTF8 then some ⟨_, h⟩ else none

theorem fromUtf8_utf8 (s : String) : fromUtf8 (utf8 s) = some s := by
  have hb : ByteArray.mk (utf8 s).toArray = s.toByteArray := by simp [utf8]
  rw [fromUtf8, dif_pos (hb ▸ s.isValidUTF8), Option.some_inj]
  exact String.toByteArray_inj.mp hb

theorem utf8_append (s t : String) : utf8 (s ++ t) = utf8 s ++ utf8 t := by
  simp [utf8]

theorem utf8_ofList (text : List Char) :
    utf8 (String.ofList text) = text.flatMap String.utf8EncodeChar := by
  show (text.flatMap String.utf8EncodeChar).toByteArray.data.toList = _
  rw [List.data_toByteArray]

/-- Characters of one byte have as many bytes as there are of them. -/
theorem length_utf8_ofList {text : List Char} (h : ∀ c ∈ text, c.utf8Size = 1) :
    (utf8 (String.ofList text)).length = text.length := by
  have hsizes : text.map (fun c => (String.utf8EncodeChar c).length) = text.map fun _ => 1 := by
    refine List.map_congr_left fun c hc => ?_
    rw [String.length_utf8EncodeChar, h c hc]
  rw [utf8_ofList, List.length_flatMap, hsizes]
  simp

instance : Codec String where
  serialize s := serialize (UInt64.ofNat (utf8 s).length) ++ utf8 s
  decode bs := do
    let (n, bs) ← decode (α := UInt64) bs
    let (b, bs) ← takeBytes n.toNat bs
    if h : (ByteArray.mk b.toArray).IsValidUTF8 then return (⟨_, h⟩, bs)
    else throw .invalidUtf8
  Fits s := (utf8 s).length < 2 ^ 64
  decode_serialize := by
    intro s hs rest
    have hn : (UInt64.ofNat (utf8 s).length).toNat = (utf8 s).length := by
      rw [UInt64.toNat_ofNat', Nat.mod_eq_of_lt hs]
    have hb : ByteArray.mk (utf8 s).toArray = s.toByteArray := by simp [utf8]
    rw [List.append_assoc, decode_serialize trivial]
    simp only [bind, Except.bind, hn, takeBytes_append rfl]
    rw [dif_pos (hb ▸ s.isValidUTF8)]
    simp [hb, pure, Except.pure]
  decode_sound := by
    intro bs rest s h
    cases h₁ : decode (α := UInt64) bs with
    | error e => simp [h₁, bind, Except.bind] at h
    | ok p =>
      obtain ⟨n, bs₁⟩ := p
      simp only [h₁, bind, Except.bind] at h
      obtain ⟨rfl, -⟩ := decode_sound h₁
      cases h₂ : takeBytes n.toNat bs₁ with
      | error e => simp [h₂] at h
      | ok q =>
        obtain ⟨b, bs₂⟩ := q
        simp only [h₂] at h
        split at h
        · simp only [pure, Except.pure, Except.ok.injEq, Prod.mk.injEq] at h
          obtain ⟨rfl, rfl⟩ := h
          obtain ⟨rfl, hn⟩ := takeBytes_sound h₂
          simp only [utf8, hn, UInt64.ofNat_toNat]
          exact ⟨by simp, n.toNat_lt⟩
        · cases h
  fits_of_length := by
    intro s h
    simp only [List.length_append] at h
    omega
  length_pos s := by
    have := length_pos (UInt64.ofNat (utf8 s).length)
    simp only [List.length_append]
    omega

/-! ## Enumerations -/

/-- **The variants of an enumeration**: the tag of a value, the bytes of its fields, and the
decoder of the fields under a tag. -/
structure Variants (α : Type) where
  tag : α → UInt32
  body : α → Bytes
  decodeBody : UInt32 → Bytes → Except DecodeError (α × Bytes)
  Fits : α → Prop
  decodeBody_body : ∀ {a}, Fits a → ∀ rest, decodeBody (tag a) (body a ++ rest) = .ok (a, rest)
  decodeBody_sound : ∀ {t bs rest a}, decodeBody t bs = .ok (a, rest) →
    t = tag a ∧ bs = body a ++ rest ∧ Fits a
  fits_of_length : ∀ {a}, (body a).length < 2 ^ 64 → Fits a

/-- A variant with one field is read back. -/
theorem decode_field {α β : Type} [Codec β] (variant : β → α) {b : β} (hb : Codec.Fits b)
    (rest : Bytes) :
    ((Codec.decode (serialize b ++ rest)).map fun p : β × Bytes => (variant p.1, p.2)) =
      .ok (variant b, rest) := by
  rw [Codec.decode_serialize hb]
  rfl

/-- What is read as a variant with one field was written as it. -/
theorem decode_field_sound {α β : Type} [Codec β] {variant : β → α} {bs rest : Bytes} {a : α}
    (h : ((Codec.decode bs).map fun p : β × Bytes => (variant p.1, p.2)) = .ok (a, rest)) :
    ∃ b, a = variant b ∧ bs = serialize b ++ rest ∧ Codec.Fits b := by
  cases hd : Codec.decode (α := β) bs with
  | error e =>
    rw [hd] at h
    cases h
  | ok p =>
    rw [hd] at h
    obtain ⟨rfl, rfl⟩ := Prod.mk.inj (Except.ok.inj h)
    exact ⟨p.1, rfl, Codec.decode_sound hd⟩

/-- The codec of an enumeration: the tag, then the fields of the variant. -/
@[reducible] def Codec.ofVariants {α : Type} (v : Variants α) : Codec α where
  serialize a := serialize (v.tag a) ++ v.body a
  decode bs := do
    let (t, bs) ← decode (α := UInt32) bs
    v.decodeBody t bs
  Fits := v.Fits
  decode_serialize := by
    intro a ha rest
    rw [List.append_assoc, decode_serialize trivial]
    exact v.decodeBody_body ha rest
  decode_sound := by
    intro bs rest a h
    cases h₁ : decode (α := UInt32) bs with
    | error e => simp [h₁, bind, Except.bind] at h
    | ok p =>
      obtain ⟨t, bs₁⟩ := p
      simp only [h₁, bind, Except.bind] at h
      obtain ⟨rfl, -⟩ := decode_sound h₁
      obtain ⟨rfl, rfl, hfit⟩ := v.decodeBody_sound h
      exact ⟨by simp, hfit⟩
  fits_of_length := by
    intro a h
    simp only [List.length_append] at h
    exact v.fits_of_length (by omega)
  length_pos a := by
    have := length_pos (v.tag a)
    simp only [List.length_append]
    omega

/-! ## Lengths -/

section Lengths

variable {α β : Type} [Codec α] [Codec β]

@[simp] theorem length_serialize_uint16 (x : UInt16) : (serialize x).length = 2 :=
  length_leBytes 2 _

@[simp] theorem length_serialize_uint32 (x : UInt32) : (serialize x).length = 4 :=
  length_leBytes 4 _

@[simp] theorem length_serialize_uint64 (x : UInt64) : (serialize x).length = 8 :=
  length_leBytes 8 _

@[simp] theorem length_serialize_bytes (b : Bytes) : (serialize b).length = 8 + b.length := by
  rw [serialize_bytes, List.length_append, length_leBytes]

@[simp] theorem length_serialize_prod (p : α × β) :
    (serialize p).length = (serialize p.1).length + (serialize p.2).length :=
  List.length_append

theorem length_serialize_list (l : List α) :
    (serialize l).length = 8 + (l.map fun a => (serialize a).length).sum := by
  show (serialize (UInt64.ofNat l.length) ++ l.flatMap serialize).length = _
  rw [List.length_append, length_serialize_uint64, List.length_flatMap]

end Lengths

end Bincode
