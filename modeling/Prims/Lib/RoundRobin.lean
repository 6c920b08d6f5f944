import Mathlib.Algebra.BigOperators.Group.List.Basic
import Mathlib.Data.List.Perm.Basic
import Mathlib.Data.List.Nodup
import Mathlib.Data.List.Induction

/-!
# Dealing in turn

The elements of a list go to `n` hands in turn: the element at place `i` goes to hand `i % n`. The
hand `j` then has the elements at the places `j`, `j + n`, `j + 2 n`, …, and every element is in
exactly one hand.

## Main definitions

* `everyNth n j l`: the elements of `l` at the places that leave `j` when divided by `n`
* `dealInTurn`: one element after the other is pushed on the hand whose turn it is

## Main results

* `dealInTurn_eq_mapIdx`: the hand `j` receives `everyNth n j l`
* `flatMap_everyNth_perm`: the hands together hold the list
* `length_everyNth_le`: no hand has two elements more than another
-/

section RoundRobin

variable {α β : Type}

/-- The elements of a list at the places that leave `j` when divided by `n`. -/
def everyNth (n j : ℕ) (l : List α) : List α :=
  (l.zipIdx.filter fun e => e.2 % n = j).map Prod.fst

/-- Push the elements of a list on the hands in turn. -/
def dealInTurn (n : ℕ) (push : β → α → β) (hands : List β) (l : List α) : List β :=
  l.zipIdx.foldl (fun hands e => hands.modify (e.2 % n) fun hand => push hand e.1) hands

theorem zipIdx_concat (l : List α) (a : α) : (l ++ [a]).zipIdx = l.zipIdx ++ [(a, l.length)] := by
  rw [List.zipIdx_append, Nat.zero_add]
  rfl

theorem everyNth_concat (n j : ℕ) (l : List α) (a : α) :
    everyNth n j (l ++ [a]) = everyNth n j l ++ if l.length % n = j then [a] else [] := by
  rw [everyNth, zipIdx_concat, List.filter_append, List.map_append, everyNth]
  by_cases h : l.length % n = j <;> simp [h]

theorem everyNth_sublist (n j : ℕ) (l : List α) : (everyNth n j l).Sublist l := by
  have h := (List.filter_sublist (l := l.zipIdx) (p := fun e => e.2 % n = j)).map Prod.fst
  rwa [List.zipIdx_map_fst] at h

theorem mem_everyNth {n j : ℕ} {l : List α} {a : α} :
    a ∈ everyNth n j l ↔ ∃ i, l[i]? = some a ∧ i % n = j := by
  rw [everyNth, List.mem_map]
  constructor
  · rintro ⟨⟨b, i⟩, hmem, rfl⟩
    rw [List.mem_filter, List.mem_zipIdx_iff_getElem?, decide_eq_true_eq] at hmem
    exact ⟨i, hmem⟩
  · rintro ⟨i, hi, hij⟩
    refine ⟨(a, i), ?_, rfl⟩
    rw [List.mem_filter, List.mem_zipIdx_iff_getElem?, decide_eq_true_eq]
    exact ⟨hi, hij⟩

/-- **The hand `j` receives every `n`-th element**, from the place `j` on. -/
theorem dealInTurn_eq_mapIdx (n : ℕ) (push : β → α → β) (hands : List β) (l : List α) :
    dealInTurn n push hands l = hands.mapIdx fun j hand => (everyNth n j l).foldl push hand := by
  induction l using List.reverseRecOn with
  | nil =>
    apply List.ext_getElem?
    intro j
    rw [List.getElem?_mapIdx]
    exact Option.map_id'.symm
  | append_singleton l a ih =>
    have hstep : dealInTurn n push hands (l ++ [a]) =
        (dealInTurn n push hands l).modify (l.length % n) fun hand => push hand a := by
      rw [dealInTurn, zipIdx_concat, List.foldl_append]
      rfl
    rw [hstep, ih]
    apply List.ext_getElem?
    intro j
    rw [List.getElem?_modify, List.getElem?_mapIdx, List.getElem?_mapIdx, everyNth_concat]
    cases hands[j]? with
    | none => rfl
    | some hand =>
      -- only the hand whose turn it is gets the new element
      by_cases h : l.length % n = j <;> simp [h]

/-- Elements sorted by a number below `n` are all of them. -/
theorem flatMap_filter_perm {l : List α} {f : α → ℕ} {n : ℕ} (h : ∀ a ∈ l, f a < n) :
    ((List.range n).flatMap fun j => l.filter fun a => f a = j).Perm l := by
  classical
  rw [List.perm_iff_count]
  intro a
  have hother : ∀ j, j ≠ f a → j ∈ List.range n → ((l.filter fun a => f a = j).count a) = 0 := by
    intro j hj _
    rw [List.count_eq_zero, List.mem_filter]
    rintro ⟨-, hfa⟩
    exact hj (of_decide_eq_true hfa).symm
  have hown : (l.filter fun b => f b = f a).count a = l.count a := List.count_filter (by simp)
  rw [List.count_flatMap]
  by_cases ha : a ∈ l
  · have hrange : (List.range n).count (f a) = 1 :=
      List.count_eq_one_of_mem List.nodup_range (List.mem_range.mpr (h a ha))
    refine (List.sum_map_eq_nsmul_single (f a) _ hother).trans ?_
    rw [hrange, one_nsmul]
    exact hown
  · have hzero : l.count a = 0 := List.count_eq_zero.mpr ha
    refine (List.sum_map_eq_nsmul_single (f a) _ hother).trans ?_
    rw [hzero]
    show _ • ((l.filter fun b => f b = f a).count a) = 0
    rw [hown, hzero, nsmul_zero]

/-- **The hands together hold the list.** -/
theorem flatMap_everyNth_perm {n : ℕ} (hn : 0 < n) (l : List α) :
    ((List.range n).flatMap fun j => everyNth n j l).Perm l := by
  have h := (flatMap_filter_perm (l := l.zipIdx) (f := fun e => e.2 % n)
    fun e _ => Nat.mod_lt _ hn).map Prod.fst
  rw [List.map_flatMap, List.zipIdx_map_fst] at h
  exact h

theorem length_everyNth {n j : ℕ} (hj : j < n) (l : List α) :
    (everyNth n j l).length = (l.length + (n - 1 - j)) / n := by
  induction l using List.reverseRecOn with
  | nil => exact (Nat.div_eq_of_lt (by simp; omega)).symm
  | append_singleton l a ih =>
    have hsucc : (l ++ [a]).length + (n - 1 - j) = l.length + (n - 1 - j) + 1 := by
      rw [List.length_append, List.length_singleton]
      omega
    -- the hand gets the new element when its length goes past a multiple of `n`
    have hturn : n ∣ l.length + (n - 1 - j) + 1 ↔ l.length % n = j := by
      have hshift : l.length + (n - 1 - j) + 1 = l.length + (n - j) := by omega
      rw [hshift, Nat.dvd_iff_mod_eq_zero, Nat.add_mod]
      have hmod := Nat.mod_lt l.length (Nat.zero_lt_of_lt hj)
      rcases Nat.eq_zero_or_pos j with rfl | hpos
      · simp
      · rw [Nat.mod_eq_of_lt (Nat.sub_lt (Nat.zero_lt_of_lt hj) hpos)]
        rcases Nat.lt_or_ge (l.length % n + (n - j)) n with hlt | hge
        · rw [Nat.mod_eq_of_lt hlt]
          omega
        · rw [Nat.mod_eq_sub_mod hge, Nat.mod_eq_of_lt (by omega)]
          omega
    rw [everyNth_concat, List.length_append, ih, hsucc, Nat.succ_div]
    simp only [hturn]
    split <;> rfl

/-- **No hand has two elements more than another.** -/
theorem length_everyNth_le {n i j : ℕ} (hi : i < n) (hj : j < n) (l : List α) :
    (everyNth n i l).length ≤ (everyNth n j l).length + 1 := by
  rw [length_everyNth hi, length_everyNth hj, ← Nat.add_div_right _ (Nat.zero_lt_of_lt hi)]
  exact Nat.div_le_div_right (by omega)

end RoundRobin
