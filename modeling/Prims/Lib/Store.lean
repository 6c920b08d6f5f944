import Mathlib.Data.List.Induction
import Mathlib.Data.List.Pairwise
import Mathlib.Data.List.Sort
import Prims.Lib.Bytes

/-!
# Stores that iterate in key order

A store maps byte strings to byte strings and iterates over its entries in the lexicographic order
of the keys. A scan starts at the first key that is not below a given string and stops at the
first key that does not start with it. The keys that start with a string follow one another in the
order, so the scan returns all of them. What is left of these keys is a store of its own: the
slots under the string.

## Main definitions

* `ByteMap`: the entries of a store
* `ByteMap.scan`: the entries whose key starts with a given string
* `ByteMap.slots`: these entries, by the rest of their key

## Main results

* `ByteMap.mem_scan`: a scan returns the entries that start with the string, and no others
* `ByteMap.toList_slots`: a scan, with the keys cut, is the list of the slots
-/

/-- The last element with a property, when there is one more. -/
theorem find?_reverse_concat {α : Type} (l : List α) (a : α) (p : α → Bool) :
    (l ++ [a]).reverse.find? p = if p a then some a else l.reverse.find? p := by
  rw [List.reverse_append, List.reverse_singleton, List.singleton_append, List.find?_cons]
  cases p a <;> rfl

/-- The entries of a store, in the order of their keys. -/
abbrev ByteMap := Std.ExtTreeMap Bytes Bytes

/-! ## The lexicographic order -/

theorem compare_self_eq (a : Bytes) : compare a a = .eq := Std.ReflCmp.compare_self

theorem compare_append_left (p a b : Bytes) : compare (p ++ a) (p ++ b) = compare a b := by
  induction p with
  | nil => rfl
  | cons x p ih =>
    have hx : compare x x = .eq := Std.ReflCmp.compare_self
    rw [List.cons_append, List.cons_append, List.compare_cons_cons, hx, ih]
    rfl

/-- A string is not above the strings that it starts. -/
theorem compare_ne_lt_of_isPrefix {p k : Bytes} (h : p <+: k) : compare k p ≠ .lt := by
  obtain ⟨s, rfl⟩ := h
  have hs : compare (p ++ s) (p ++ []) = compare s [] := compare_append_left p s []
  rw [List.append_nil] at hs
  rw [hs]
  cases s <;> simp

/-- What lies between a string and a string that it starts is started by it as well. -/
theorem isPrefix_of_between {p e k : Bytes} (hpe : compare e p ≠ .lt) (hek : compare e k = .lt)
    (hpk : p <+: k) : p <+: e := by
  induction p generalizing e k with
  | nil => exact List.nil_prefix
  | cons x p ih =>
    obtain ⟨s, rfl⟩ := hpk
    cases e with
    | nil => exact absurd rfl hpe
    | cons y e =>
      rw [List.cons_append, List.compare_cons_cons] at hek
      rw [List.compare_cons_cons] at hpe
      -- the first bytes agree: one comparison excludes less, the other greater
      cases hyx : compare y x with
      | lt => exact absurd (by simp [hyx]) hpe
      | gt => simp [hyx] at hek
      | eq =>
        obtain rfl : y = x := Std.LawfulEqCmp.eq_of_compare hyx
        simp only [hyx, Ordering.then] at hek hpe
        exact List.prefix_cons_inj y |>.mpr (ih hpe hek (List.prefix_append p s))

namespace ByteMap

/-! ## Scans -/

/-- The entries whose key starts with `p`: from the first key that is not below `p`, up to the
first key that does not start with it. -/
def scan (m : ByteMap) (p : Bytes) : List (Bytes × Bytes) :=
  (m.toList.dropWhile fun e => compare e.1 p = .lt).takeWhile fun e => p.isPrefixOf e.1

theorem scan_sublist (m : ByteMap) (p : Bytes) : (m.scan p).Sublist m.toList :=
  (List.takeWhile_sublist _).trans (List.dropWhile_sublist _)

theorem pairwise_scan (m : ByteMap) (p : Bytes) :
    (m.scan p).Pairwise fun a b => compare a.1 b.1 = .lt :=
  Std.ExtTreeMap.ordered_keys_toList.sublist (m.scan_sublist p)

/-- In an ordered list, the entries from the first one that is not below `p` on are not below
`p`. -/
theorem mem_dropWhile_lt {p : Bytes} {l : List (Bytes × Bytes)}
    (hl : l.Pairwise fun a b => compare a.1 b.1 = .lt) {e : Bytes × Bytes} :
    e ∈ (l.dropWhile fun e => compare e.1 p = .lt) ↔ e ∈ l ∧ compare e.1 p ≠ .lt := by
  induction l with
  | nil => simp
  | cons a l ih =>
    rw [List.pairwise_cons] at hl
    rw [List.dropWhile_cons]
    split
    · next ha =>
      rw [ih hl.2, List.mem_cons]
      constructor
      · rintro ⟨hmem, hne⟩
        exact ⟨.inr hmem, hne⟩
      · rintro ⟨rfl | hmem, hne⟩
        · exact absurd (by simpa using ha) hne
        · exact ⟨hmem, hne⟩
    · next ha =>
      refine ⟨fun hmem => ⟨hmem, ?_⟩, And.left⟩
      rcases List.mem_cons.mp hmem with rfl | hmem
      · simpa using ha
      · intro hlt
        exact ha (by simpa using Std.TransCmp.lt_trans (hl.1 e hmem) hlt)

/-- In an ordered list that is not below `p`, the entries that start with `p` come first. -/
theorem mem_takeWhile_isPrefixOf {p : Bytes} {l : List (Bytes × Bytes)}
    (hl : l.Pairwise fun a b => compare a.1 b.1 = .lt) (hp : ∀ e ∈ l, compare e.1 p ≠ .lt)
    {e : Bytes × Bytes} :
    e ∈ (l.takeWhile fun e => p.isPrefixOf e.1) ↔ e ∈ l ∧ p <+: e.1 := by
  induction l with
  | nil => simp
  | cons a l ih =>
    rw [List.pairwise_cons] at hl
    rw [List.forall_mem_cons] at hp
    rw [List.takeWhile_cons]
    split
    · next ha =>
      rw [List.mem_cons, List.mem_cons, ih hl.2 hp.2]
      constructor
      · rintro (rfl | ⟨hmem, hpre⟩)
        · exact ⟨.inl rfl, List.isPrefixOf_iff_prefix.mp ha⟩
        · exact ⟨.inr hmem, hpre⟩
      · rintro ⟨rfl | hmem, hpre⟩
        · exact .inl rfl
        · exact .inr ⟨hmem, hpre⟩
    · next ha =>
      refine ⟨fun h => absurd h List.not_mem_nil, ?_⟩
      rintro ⟨hmem, hpre⟩
      refine absurd (List.isPrefixOf_iff_prefix.mpr ?_) ha
      rcases List.mem_cons.mp hmem with rfl | hmem
      · exact hpre
      · exact isPrefix_of_between hp.1 (hl.1 e hmem) hpre

/-- **A scan** returns the entries whose key starts with the string, and no others. -/
theorem mem_scan {m : ByteMap} {p k v : Bytes} :
    (k, v) ∈ m.scan p ↔ p <+: k ∧ m[k]? = some v := by
  have hsorted : m.toList.Pairwise fun a b => compare a.1 b.1 = .lt :=
    Std.ExtTreeMap.ordered_keys_toList
  have hdrop := hsorted.sublist (List.dropWhile_sublist fun e => compare e.1 p = .lt)
  rw [scan, mem_takeWhile_isPrefixOf hdrop fun e he => ((mem_dropWhile_lt hsorted).mp he).2,
    mem_dropWhile_lt hsorted, Std.ExtTreeMap.mem_toList_iff_getElem?_eq_some]
  constructor
  · rintro ⟨⟨hm, -⟩, hp⟩
    exact ⟨hp, hm⟩
  · rintro ⟨hp, hm⟩
    exact ⟨⟨hm, compare_ne_lt_of_isPrefix hp⟩, hp⟩

/-! ## Writes -/

/-- Write a list of entries, one after the other. -/
def writeAll (m : ByteMap) (writes : List (Bytes × Bytes)) : ByteMap :=
  writes.foldl (fun m e => m.insert e.1 e.2) m

/-- The value that the last write to a key leaves. -/
def lastWrite (writes : List (Bytes × Bytes)) (k : Bytes) : Option Bytes :=
  (writes.reverse.find? fun e => e.1 = k).map Prod.snd

theorem getElem?_insert_eq (m : ByteMap) (a k v : Bytes) :
    (m.insert k v)[a]? = if k = a then some v else m[a]? := by
  rw [Std.ExtTreeMap.getElem?_insert]
  simp only [Std.compare_eq_iff_eq]

/-- **The last write to a key wins**, and a key that is not written keeps its value. -/
theorem getElem?_writeAll (m : ByteMap) (writes : List (Bytes × Bytes)) (k : Bytes) :
    (m.writeAll writes)[k]? = (lastWrite writes k).or m[k]? := by
  induction writes using List.reverseRecOn with
  | nil => rfl
  | append_singleton writes e ih =>
    have hstep : m.writeAll (writes ++ [e]) = (m.writeAll writes).insert e.1 e.2 := by
      simp [writeAll]
    have hlast : lastWrite (writes ++ [e]) k =
        if e.1 = k then some e.2 else lastWrite writes k := by
      unfold lastWrite
      rw [find?_reverse_concat]
      by_cases h : e.1 = k <;> simp [h]
    rw [hstep, getElem?_insert_eq, ih, hlast]
    split <;> simp

/-- When no key is written twice, the last write is the only one. -/
theorem lastWrite_eq_some {writes : List (Bytes × Bytes)}
    (hdistinct : writes.Pairwise fun a b => a.1 ≠ b.1) {k v : Bytes} :
    lastWrite writes k = some v ↔ (k, v) ∈ writes := by
  unfold lastWrite
  rw [Option.map_eq_some_iff]
  constructor
  · rintro ⟨e, he, rfl⟩
    have hmem := List.mem_reverse.mp (List.mem_of_find?_eq_some he)
    have hkey : e.1 = k := by simpa using List.find?_some he
    rwa [← hkey]
  · intro hmem
    cases hf : writes.reverse.find? fun e => e.1 = k with
    | none =>
      have := List.find?_eq_none.mp hf (k, v) (List.mem_reverse.mpr hmem)
      simp at this
    | some e =>
      have he := List.mem_reverse.mp (List.mem_of_find?_eq_some hf)
      have hkey : e.1 = k := by simpa using List.find?_some hf
      refine ⟨e, rfl, ?_⟩
      by_contra hne
      have hne' : e ≠ (k, v) := fun h => hne (by rw [h])
      have : Std.Symm fun a b : Bytes × Bytes => a.1 ≠ b.1 := ⟨fun _ _ h => h.symm⟩
      exact hdistinct.forall he hmem hne' hkey

/-- Writes of different keys leave the same in any order. -/
theorem lastWrite_eq_of_perm {writes writes' : List (Bytes × Bytes)} (hperm : writes.Perm writes')
    (hdistinct : writes'.Pairwise fun a b => a.1 ≠ b.1) (k : Bytes) :
    lastWrite writes k = lastWrite writes' k := by
  have hdistinct' : writes.Pairwise fun a b => a.1 ≠ b.1 := hperm.symm.pairwise hdistinct Ne.symm
  ext v
  rw [lastWrite_eq_some hdistinct', lastWrite_eq_some hdistinct, hperm.mem_iff]

theorem lastWrite_append (writes writes' : List (Bytes × Bytes)) (k : Bytes) :
    lastWrite (writes ++ writes') k = (lastWrite writes' k).or (lastWrite writes k) := by
  rw [lastWrite, List.reverse_append, List.find?_append, Option.map_or]
  rfl

theorem lastWrite_map_key (writes : List (Bytes × Bytes)) {f : Bytes → Bytes}
    (hf : Function.Injective f) (k : Bytes) :
    lastWrite (writes.map fun e => (f e.1, e.2)) (f k) = lastWrite writes k := by
  have hkey : (fun e : Bytes × Bytes => decide (e.1 = f k)) ∘
      (fun e : Bytes × Bytes => (f e.1, e.2)) = fun e => decide (e.1 = k) := by
    funext e
    simp [hf.eq_iff]
  unfold lastWrite
  rw [← List.map_reverse, List.find?_map, Option.map_map, hkey]
  rfl

theorem lastWrite_eq_none_of_forall {writes : List (Bytes × Bytes)} {k : Bytes}
    (h : ∀ e ∈ writes, e.1 ≠ k) : lastWrite writes k = none := by
  unfold lastWrite
  rw [Option.map_eq_none_iff, List.find?_eq_none]
  intro e he
  simpa using h e (List.mem_reverse.mp he)

/-- Keys in strict order are different. -/
theorem pairwise_ne_of_pairwise_lt {l : List (Bytes × Bytes)}
    (h : l.Pairwise fun a b => compare a.1 b.1 = .lt) : l.Pairwise fun a b => a.1 ≠ b.1 := by
  refine h.imp fun {a b} hlt heq => ?_
  rw [heq, compare_self_eq] at hlt
  cases hlt

theorem pairwise_ne_toList (m : ByteMap) : m.toList.Pairwise fun a b => a.1 ≠ b.1 :=
  pairwise_ne_of_pairwise_lt Std.ExtTreeMap.ordered_keys_toList

/-- The list of a map writes its entries. -/
theorem lastWrite_toList (m : ByteMap) (k : Bytes) : lastWrite m.toList k = m[k]? := by
  ext v
  rw [lastWrite_eq_some (pairwise_ne_toList m), Std.ExtTreeMap.mem_toList_iff_getElem?_eq_some]

/-! ## Slots -/

/-- An entry under `p`, by what follows `p` in its key. -/
def cut (p : Bytes) (e : Bytes × Bytes) : Bytes × Bytes := (e.1.drop p.length, e.2)

/-- The entries under `p`, by what follows `p` in their key. -/
def slots (m : ByteMap) (p : Bytes) : ByteMap := writeAll ∅ ((m.scan p).map (cut p))

theorem mem_map_cut_scan {m : ByteMap} {p k v : Bytes} :
    (k, v) ∈ (m.scan p).map (cut p) ↔ m[p ++ k]? = some v := by
  rw [List.mem_map]
  constructor
  · rintro ⟨⟨k', v'⟩, hmem, heq⟩
    obtain ⟨⟨s, rfl⟩, hm⟩ := mem_scan.mp hmem
    rw [cut, List.drop_left] at heq
    obtain ⟨rfl, rfl⟩ := Prod.mk.inj heq
    exact hm
  · intro hm
    exact ⟨(p ++ k, v), mem_scan.mpr ⟨List.prefix_append p k, hm⟩, by rw [cut, List.drop_left]⟩

theorem pairwise_map_cut_scan (m : ByteMap) (p : Bytes) :
    ((m.scan p).map (cut p)).Pairwise fun a b => compare a.1 b.1 = .lt := by
  rw [List.pairwise_map]
  refine (m.pairwise_scan p).imp_of_mem ?_
  rintro ⟨a, va⟩ ⟨b, vb⟩ ha hb hlt
  obtain ⟨⟨s, rfl⟩, -⟩ := mem_scan.mp ha
  obtain ⟨⟨t, rfl⟩, -⟩ := mem_scan.mp hb
  rw [compare_append_left] at hlt
  rwa [cut, cut, List.drop_left, List.drop_left]

/-- A slot is the entry under the whole key. -/
theorem getElem?_slots (m : ByteMap) (p k : Bytes) : (m.slots p)[k]? = m[p ++ k]? := by
  have hdistinct := pairwise_ne_of_pairwise_lt (m.pairwise_map_cut_scan p)
  rw [slots, getElem?_writeAll, Std.ExtTreeMap.getElem?_empty, Option.or_none]
  ext v
  rw [lastWrite_eq_some hdistinct, mem_map_cut_scan]

/-- **A scan is the list of the slots**, with the keys cut. -/
theorem toList_slots (m : ByteMap) (p : Bytes) :
    (m.slots p).toList = (m.scan p).map (cut p) := by
  have : Std.Irrefl fun a b : Bytes × Bytes => compare a.1 b.1 = .lt := by
    refine ⟨fun a h => ?_⟩
    rw [compare_self_eq] at h
    cases h
  have : Std.Antisymm fun a b : Bytes × Bytes => compare a.1 b.1 = .lt := by
    refine ⟨fun a b h h' => ?_⟩
    have hlt := Std.TransCmp.lt_trans h h'
    rw [compare_self_eq] at hlt
    cases hlt
  refine List.Pairwise.eq_of_mem_iff Std.ExtTreeMap.ordered_keys_toList
    (m.pairwise_map_cut_scan p) ?_
  rintro ⟨k, v⟩
  rw [Std.ExtTreeMap.mem_toList_iff_getElem?_eq_some, getElem?_slots, mem_map_cut_scan]

end ByteMap
