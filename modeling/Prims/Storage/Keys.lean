import Prims.Lib.Bincode

/-!
# Keys of the store

The key constructors of `storage/keys.rs`. Every kind of record has a letter and a colon before
what identifies it, so that keys of different kinds differ. The keys of contract storage and of
the viewing index continue with a colon and a second part.
-/

namespace Prims

open Bincode

def prefixedKey (kind : String) (suffix : Bytes) : Bytes := utf8 kind ++ suffix

def blockKey (height : UInt64) : Bytes := prefixedKey "b:" (utf8 (toString height.toNat))

def heightIndexKey (hash : Bytes) : Bytes := prefixedKey "h:" hash

def transactionKey (hash : Bytes) : Bytes := prefixedKey "t:" hash

def accountKey (address : Bytes) : Bytes := prefixedKey "a:" address

def stakeKey (address : Bytes) : Bytes := prefixedKey "s:" address

def contractKey (address : Bytes) : Bytes := prefixedKey "c:" address

def contractStoragePrefix (address : Bytes) : Bytes := prefixedKey "m:" (address ++ utf8 ":")

def contractStorageKey (address key : Bytes) : Bytes := contractStoragePrefix address ++ key

def anonymousNoteKey (commitment : Bytes) : Bytes := prefixedKey "n:" commitment

def viewingHintPrefix (viewingHint : Bytes) : Bytes := prefixedKey "v:" (viewingHint ++ utf8 ":")

def viewingHintNoteKey (viewingHint commitment : Bytes) : Bytes :=
  viewingHintPrefix viewingHint ++ commitment

def noteMerkleRootKey : Option UInt16 → Bytes
  | some shardId => prefixedKey "r:" (utf8 "shard:" ++ utf8 (toString shardId.toNat))
  | none => prefixedKey "r:" (utf8 "global")

/-! ## Keys of different kinds -/

theorem head?_prefixedKey (kind : String) (suffix : Bytes) (h : utf8 kind ≠ []) :
    (prefixedKey kind suffix).head? = (utf8 kind).head? := by
  rw [prefixedKey, List.head?_append_of_ne_nil _ h]

/-- A key of contract storage is no account and no contract. -/
theorem contractStorageKey_ne (address key : Bytes) (kind : String) (suffix : Bytes)
    (h : utf8 kind ≠ []) (hne : (utf8 kind).head? ≠ (utf8 "m:").head?) :
    contractStorageKey address key ≠ prefixedKey kind suffix := by
  intro heq
  have hhead := congrArg List.head? heq
  rw [contractStorageKey, contractStoragePrefix, prefixedKey, List.append_assoc,
    List.head?_append_of_ne_nil _ (by decide), head?_prefixedKey kind suffix h] at hhead
  exact hne hhead.symm

theorem contractStorageKey_ne_contractKey (address key address' : Bytes) :
    contractStorageKey address key ≠ contractKey address' :=
  contractStorageKey_ne address key "c:" address' (by decide) (by decide)

theorem contractStorageKey_ne_accountKey (address key address' : Bytes) :
    contractStorageKey address key ≠ accountKey address' :=
  contractStorageKey_ne address key "a:" address' (by decide) (by decide)

theorem contractKey_ne_accountKey (address address' : Bytes) :
    contractKey address ≠ accountKey address' := by
  intro heq
  have hhead := congrArg List.head? heq
  rw [contractKey, accountKey, head?_prefixedKey _ _ (by decide),
    head?_prefixedKey _ _ (by decide)] at hhead
  exact absurd hhead (by decide)

theorem contractKey_injective : Function.Injective contractKey :=
  fun _ _ h => List.append_cancel_left h

theorem accountKey_injective : Function.Injective accountKey :=
  fun _ _ h => List.append_cancel_left h

theorem contractStorageKey_injective (address : Bytes) :
    Function.Injective (contractStorageKey address) :=
  fun _ _ h => List.append_cancel_left h

/-- The decimal digits of a number determine it. -/
theorem utf8_toString_injective : Function.Injective fun n : ℕ => utf8 (toString n) := by
  intro m n h
  have htext : toString m = toString n := utf8_injective h
  rw [Nat.toString_eq_ofList_toDigits, Nat.toString_eq_ofList_toDigits, String.ofList_inj] at htext
  have hvalue := congrArg (fun digits => Nat.ofDigitChars 10 digits 0) htext
  simpa only [Nat.ofDigitChars_ten_toDigits] using hvalue

theorem blockKey_injective : Function.Injective blockKey :=
  fun _ _ h => UInt64.toNat_inj.mp (utf8_toString_injective (List.append_cancel_left h))

theorem noteMerkleRootKey_some_ne_none (shardId : UInt16) :
    noteMerkleRootKey (some shardId) ≠ noteMerkleRootKey none := by
  intro h
  have hsuffix : utf8 "shard:" ++ utf8 (toString shardId.toNat) = utf8 "global" :=
    List.append_cancel_left h
  have hhead := congrArg List.head? hsuffix
  rw [List.head?_append_of_ne_nil _ (by decide)] at hhead
  exact absurd hhead (by decide)

theorem noteMerkleRootKey_injective : Function.Injective noteMerkleRootKey := by
  intro a b h
  cases a with
  | none =>
    cases b with
    | none => rfl
    | some shardId => exact absurd h.symm (noteMerkleRootKey_some_ne_none shardId)
  | some shardId =>
    cases b with
    | none => exact absurd h (noteMerkleRootKey_some_ne_none shardId)
    | some shardId' =>
      have hsuffix := List.append_cancel_left (List.append_cancel_left h)
      exact congrArg some (UInt16.toNat_inj.mp (utf8_toString_injective hsuffix))

theorem heightIndexKey_injective : Function.Injective heightIndexKey :=
  fun _ _ h => List.append_cancel_left h

theorem blockKey_ne_heightIndexKey (height : UInt64) (hash : Bytes) :
    blockKey height ≠ heightIndexKey hash := by
  intro heq
  have hhead := congrArg List.head? heq
  rw [blockKey, heightIndexKey, head?_prefixedKey _ _ (by decide),
    head?_prefixedKey _ _ (by decide)] at hhead
  exact absurd hhead (by decide)

/-! ## Keys of different contracts -/

/-- One address is the other one followed by a colon and more, so that their keys of contract
storage overlap. -/
def AddressesOverlap (a b : Bytes) : Prop :=
  (∃ x, b = a ++ utf8 ":" ++ x) ∨ ∃ x, a = b ++ utf8 ":" ++ x

theorem contractStoragePrefix_isPrefix {a b : Bytes}
    (h : contractStoragePrefix a <+: contractStoragePrefix b) :
    a = b ∨ ∃ x, b = a ++ utf8 ":" ++ x := by
  have hcolon : utf8 ":" = [58] := by decide
  unfold contractStoragePrefix prefixedKey at h
  rw [List.prefix_append_right_inj, hcolon, List.prefix_concat_iff] at h
  rcases h with heq | ⟨x, hx⟩
  · exact .inl (List.append_cancel_right heq)
  · exact .inr ⟨x, by rw [hcolon, hx]⟩

/-- **Keys of two contracts meet** only when the addresses overlap. -/
theorem contractStorageKey_ne_of_not_overlap {a b : Bytes} (hne : a ≠ b)
    (h : ¬ AddressesOverlap a b) (k k' : Bytes) :
    contractStorageKey b k ≠ contractStorageKey a k' := by
  intro heq
  have ha : contractStoragePrefix a <+: contractStorageKey a k' := List.prefix_append _ _
  have hb : contractStoragePrefix b <+: contractStorageKey a k' := heq ▸ List.prefix_append _ _
  rcases List.prefix_or_prefix_of_prefix ha hb with hab | hba
  · rcases contractStoragePrefix_isPrefix hab with heq' | hx
    · exact hne heq'
    · exact h (.inl hx)
  · rcases contractStoragePrefix_isPrefix hba with heq' | hx
    · exact hne heq'.symm
    · exact h (.inr hx)

/-- Addresses of one length do not overlap. -/
theorem not_overlap_of_length_eq {a b : Bytes} (h : a.length = b.length) :
    ¬ AddressesOverlap a b := by
  have hcolon : (utf8 ":").length = 1 := by decide
  rintro (⟨x, rfl⟩ | ⟨x, rfl⟩)
  all_goals
    simp only [List.length_append, hcolon] at h
    omega

end Prims
