import Mathlib.Data.List.Nodup
import Mathlib.Order.Defs.LinearOrder
import Mathlib.Tactic.Common

/-!
# Tables in the order of their keys

A table is a list of entries that is kept in the order of the keys of its entries. An entry is found
by its key, an entry that is there is changed in place, and a new one is put at the end before the
table is sorted again. Sorting is stable, so that nothing is found in another place than before.

## Main definitions

* `sortByKey cmp key`: the stable sort by a key
* `addMissing key make ks`: add an entry for every key of `ks` that has none

## Main results

* `filter_sortByKey`: sorting keeps the entries that are in order already
* `find?_sortByKey`: sorting does not change what is found under a key
* `pairwise_lt_sortByKey`: without a repeated key, the sorted table is strictly in order
* `sortByKey_eq_of_perm`: without a repeated key, the order before the sort does not matter
* `find?_addMissing`: what is found after the missing entries were added
-/

section Table

variable {α κ : Type}

/-! ## Sorting by a key -/

/-- Sort by a key. Entries with one key keep their order. -/
def sortByKey (cmp : κ → κ → Ordering) (key : α → κ) (l : List α) : List α :=
  l.mergeSort fun a b => (cmp (key a) (key b)).isLE

theorem sortByKey_perm (cmp : κ → κ → Ordering) (key : α → κ) (l : List α) :
    (sortByKey cmp key l).Perm l := List.mergeSort_perm _ _

/-- A list that is in order stays as it is. -/
theorem sortByKey_eq_self {cmp : κ → κ → Ordering} {key : α → κ} {l : List α}
    (h : l.Pairwise fun a b => (cmp (key a) (key b)).isLE) : sortByKey cmp key l = l :=
  List.mergeSort_of_pairwise h

section Sorting

variable (cmp : κ → κ → Ordering) [Std.TransCmp cmp] (key : α → κ)

theorem isLE_or_isLE (a b : κ) : ((cmp a b).isLE || (cmp b a).isLE) = true := by
  have hswap : cmp a b = (cmp b a).swap := Std.OrientedCmp.eq_swap
  rw [hswap]
  cases cmp b a <;> rfl

theorem pairwise_sortByKey (l : List α) :
    (sortByKey cmp key l).Pairwise fun a b => (cmp (key a) (key b)).isLE :=
  List.pairwise_mergeSort (fun _ _ _ => Std.TransCmp.isLE_trans)
    (fun a b => isLE_or_isLE cmp (key a) (key b)) l

/-- **Sorting keeps what is in order**: entries picked from a list in their order are picked in
that order from the sorted list. -/
theorem filter_sortByKey {l : List α} {p : α → Bool}
    (h : (l.filter p).Pairwise fun a b => (cmp (key a) (key b)).isLE) :
    (sortByKey cmp key l).filter p = l.filter p := by
  have hsublist : (l.filter p).Sublist (sortByKey cmp key l) :=
    List.sublist_mergeSort (fun _ _ _ => Std.TransCmp.isLE_trans)
      (fun a b => isLE_or_isLE cmp (key a) (key b)) h List.filter_sublist
  have hfilter : ((l.filter p).filter p).Sublist ((sortByKey cmp key l).filter p) :=
    hsublist.filter p
  rw [List.filter_filter] at hfilter
  simp only [Bool.and_self] at hfilter
  exact (hfilter.eq_of_length ((sortByKey_perm cmp key l).filter p).length_eq.symm).symm

/-- Entries under one key are found in the sorted list where they were found before. -/
theorem find?_sortByKey {l : List α} {p : α → Bool} (hp : ∀ a b, p a → p b → key a = key b) :
    (sortByKey cmp key l).find? p = l.find? p := by
  have hpairwise : (l.filter p).Pairwise fun a b => (cmp (key a) (key b)).isLE := by
    refine List.pairwise_of_forall_mem_list fun a ha b hb => ?_
    have hself : cmp (key b) (key b) = .eq := Std.ReflCmp.compare_self
    rw [hp a b (List.mem_filter.mp ha).2 (List.mem_filter.mp hb).2, hself]
    rfl
  rw [← List.head?_filter, filter_sortByKey cmp key hpairwise, List.head?_filter]

/-- **Strict order**: without a repeated key, the sorted entries are strictly in order. -/
theorem pairwise_lt_sortByKey [Std.LawfulEqCmp cmp] {l : List α} (h : (l.map key).Nodup) :
    (sortByKey cmp key l).Pairwise fun a b => cmp (key a) (key b) = .lt := by
  have hnodup : ((sortByKey cmp key l).map key).Nodup :=
    ((sortByKey_perm cmp key l).map key).nodup_iff.mpr h
  have hne : (sortByKey cmp key l).Pairwise fun a b => key a ≠ key b := List.pairwise_map.mp hnodup
  refine (pairwise_sortByKey cmp key l).imp₂ (fun a b hle hab => ?_) hne
  cases hcmp : cmp (key a) (key b) with
  | lt => rfl
  | eq => exact absurd (Std.LawfulEqCmp.eq_of_compare hcmp) hab
  | gt =>
    rw [hcmp] at hle
    cases hle

/-- **The order before the sort** does not matter where no key is repeated. -/
theorem sortByKey_eq_of_perm [Std.LawfulEqCmp cmp] {l l' : List α} (hperm : l.Perm l')
    (h : (l.map key).Nodup) : sortByKey cmp key l = sortByKey cmp key l' := by
  have hsorted : (sortByKey cmp key l).Perm (sortByKey cmp key l') :=
    ((sortByKey_perm cmp key l).trans hperm).trans (sortByKey_perm cmp key l').symm
  refine hsorted.eq_of_pairwise (fun a b ha hb hab hba => ?_) (pairwise_sortByKey cmp key l)
    (pairwise_sortByKey cmp key l')
  have hkey : key a = key b :=
    Std.LawfulEqCmp.eq_of_compare (Std.OrientedCmp.isLE_antisymm hab hba)
  exact List.inj_on_of_nodup_map h ((sortByKey_perm cmp key l).subset ha)
    (((sortByKey_perm cmp key l').trans hperm.symm).subset hb) hkey

end Sorting

/-- A strictly ordered table has no repeated key. -/
theorem nodup_of_pairwise_lt {cmp : κ → κ → Ordering} [Std.ReflCmp cmp] {key : α → κ} {l : List α}
    (h : l.Pairwise fun a b => cmp (key a) (key b) = .lt) : (l.map key).Nodup := by
  refine List.pairwise_map.mpr (h.imp fun {a b} hlt heq => ?_)
  have hself : cmp (key b) (key b) = .eq := Std.ReflCmp.compare_self
  rw [heq, hself] at hlt
  cases hlt

/-! ## Changing an entry in place -/

section Modify

variable {p q : α → Bool} {f : α → α}

/-- The first entry that satisfies `p` is found changed. -/
theorem find?_modify_self {l : List α} {i : ℕ} (h : l.findIdx? p = some i)
    (hf : ∀ a, p (f a) = p a) : (l.modify i f).find? p = (l.find? p).map f := by
  induction l generalizing i with
  | nil => cases h
  | cons a l ih =>
    rw [List.findIdx?_cons] at h
    by_cases ha : p a
    · rw [if_pos ha] at h
      cases h
      rw [List.modify_zero_cons, List.find?_cons_of_pos ((hf a).trans ha),
        List.find?_cons_of_pos ha, Option.map_some]
    · rw [if_neg ha, Option.map_eq_some_iff] at h
      obtain ⟨j, hj, rfl⟩ := h
      rw [List.modify_succ_cons, List.find?_cons_of_neg ha, List.find?_cons_of_neg ha, ih hj]

/-- Nothing else is found changed. -/
theorem find?_modify_other {l : List α} {i : ℕ} (h : l.findIdx? p = some i)
    (hq : ∀ a, p a → q a = false) (hf : ∀ a, p a → q (f a) = false) :
    (l.modify i f).find? q = l.find? q := by
  induction l generalizing i with
  | nil => cases h
  | cons a l ih =>
    rw [List.findIdx?_cons] at h
    by_cases ha : p a
    · rw [if_pos ha] at h
      cases h
      rw [List.modify_zero_cons, List.find?_cons_of_neg (by rw [hf a ha]; exact Bool.false_ne_true),
        List.find?_cons_of_neg (by rw [hq a ha]; exact Bool.false_ne_true)]
    · rw [if_neg ha, Option.map_eq_some_iff] at h
      obtain ⟨j, hj, rfl⟩ := h
      rw [List.modify_succ_cons, List.find?_cons, List.find?_cons, ih hj]

theorem map_modify_of_eq {β : Type} {g : α → β} (hf : ∀ a, g (f a) = g a) (l : List α) (i : ℕ) :
    (l.modify i f).map g = l.map g := by
  apply List.ext_getElem?
  intro j
  rw [List.getElem?_map, List.getElem?_map, List.getElem?_modify]
  cases l[j]? with
  | none => rfl
  | some a => by_cases hij : i = j <;> simp [hij, hf]

end Modify

/-! ## Adding what is missing -/

section Missing

variable [DecidableEq κ] (key : α → κ) (make : κ → α)

/-- Add an entry for every key that has none. -/
def addMissing (ks : List κ) (l : List α) : List α :=
  ks.foldl (fun l k => if l.any fun a => key a = k then l else l ++ [make k]) l

variable {key make}

theorem mem_addMissing {ks : List κ} {l : List α} {a : α} (h : a ∈ addMissing key make ks l) :
    a ∈ l ∨ ∃ k ∈ ks, a = make k := by
  induction ks generalizing l with
  | nil => exact .inl h
  | cons k ks ih =>
    rcases ih h with hmem | ⟨k', hk', rfl⟩
    · dsimp only at hmem
      split_ifs at hmem
      · exact .inl hmem
      · rcases List.mem_append.mp hmem with hl | hk
        · exact .inl hl
        · exact .inr ⟨k, List.mem_cons_self, List.mem_singleton.mp hk⟩
    · exact .inr ⟨k', List.mem_cons_of_mem k hk', rfl⟩

variable (hmake : ∀ k, key (make k) = k)
include hmake

theorem nodup_addMissing (ks : List κ) {l : List α} (h : (l.map key).Nodup) :
    ((addMissing key make ks l).map key).Nodup := by
  induction ks generalizing l with
  | nil => exact h
  | cons k ks ih =>
    refine ih ?_
    dsimp only
    split_ifs with hany
    · exact h
    · have hk : k ∉ l.map key := by
        intro hmem
        obtain ⟨a, ha, hak⟩ := List.mem_map.mp hmem
        exact hany (List.any_eq_true.mpr ⟨a, ha, decide_eq_true hak⟩)
      rw [List.map_append, List.map_singleton, hmake, List.nodup_append_comm,
        List.singleton_append, List.nodup_cons]
      exact ⟨hk, h⟩

/-- **What is found** after the missing entries were added: what was found before, and the new entry
under a key that had none. -/
theorem find?_addMissing (ks : List κ) (l : List α) (k : κ) :
    (addMissing key make ks l).find? (fun a => key a = k) =
      (l.find? fun a => key a = k).or (if k ∈ ks then some (make k) else none) := by
  induction ks generalizing l with
  | nil =>
    rw [if_neg List.not_mem_nil, Option.or_none]
    rfl
  | cons k' ks ih =>
    have hstep : (if l.any (fun a => key a = k') then l else l ++ [make k']).find?
        (fun a => key a = k) =
          (l.find? fun a => key a = k).or (if k = k' then some (make k) else none) := by
      split_ifs with hany hk hk
      · subst hk
        obtain ⟨a, ha, hak⟩ := List.any_eq_true.mp hany
        have hsome : (l.find? fun a => key a = k).isSome :=
          List.find?_isSome.mpr ⟨a, ha, hak⟩
        rw [Option.or_of_isSome hsome]
      · rw [Option.or_none]
      · subst hk
        rw [List.find?_append, List.find?_singleton, if_pos (decide_eq_true (hmake k))]
      · rw [List.find?_append, List.find?_singleton, if_neg]
        rw [hmake, decide_eq_true_eq]
        exact fun h => hk h.symm
    refine (ih _).trans ?_
    rw [hstep, Option.or_assoc]
    congr 1
    by_cases hk : k = k' <;> by_cases hks : k ∈ ks <;> simp [hk, hks]

end Missing

end Table
