import Prims.Consensus.Forks

/-!
# The fork choice as a total preference

The comparison of forks is a total order in which only equal forks tie, so a list of forks has one
largest member, which depends on its members only. Nodes that learn of the same forks in different
orders, with repetitions or in several batches choose the same one.

## Main definitions

* `ChainFork.LexLE`: the lexicographic order by weight, height and tip hash

## Main results

* `maxBy_eq_some_iff`: `maxBy` picks the largest member
* `fork_choice_is_total_preference`: the choice depends on the members only, and batches are chosen
  from one after the other
-/

namespace Prims

/-! ## The largest member of a list -/

section MaxBy

variable {α : Type} (cmp : α → α → Ordering)

theorem exists_maxBy {l : List α} (hne : l ≠ []) : ∃ m, maxBy cmp l = some m := by
  cases l with
  | nil => exact absurd rfl hne
  | cons a l => exact ⟨_, rfl⟩

variable [Std.TransCmp cmp]

/-- What is kept of two elements is at least both of them. -/
theorem isLE_keep (best b : α) :
    (cmp best (if cmp best b = .gt then best else b)).isLE ∧
      (cmp b (if cmp best b = .gt then best else b)).isLE := by
  split
  · next hgt =>
    have hlt := Std.OrientedCmp.gt_iff_lt.mp hgt
    exact ⟨Std.ReflCmp.isLE_rfl, Ordering.isLE_of_eq_lt hlt⟩
  · next hgt => exact ⟨Ordering.isLE_iff_ne_gt.mpr hgt, Std.ReflCmp.isLE_rfl⟩

/-- The loop keeps a member that is at least all the others. -/
theorem foldl_keep (l : List α) (a : α) :
    l.foldl (fun best b => if cmp best b = .gt then best else b) a ∈ a :: l ∧
      ∀ b ∈ a :: l, (cmp b (l.foldl (fun best b =>
        if cmp best b = .gt then best else b) a)).isLE := by
  induction l generalizing a with
  | nil =>
    refine ⟨List.mem_cons_self, fun b hb => ?_⟩
    rw [List.mem_singleton.mp hb]
    exact Std.ReflCmp.isLE_rfl
  | cons b l ih =>
    obtain ⟨hmem, hle⟩ := ih (if cmp a b = .gt then a else b)
    obtain ⟨ha, hb⟩ := isLE_keep cmp a b
    have hkept := hle _ List.mem_cons_self
    rw [List.foldl_cons]
    constructor
    · rcases List.mem_cons.mp hmem with hkeep | hmem
      · rw [hkeep]
        split
        · exact List.mem_cons_self
        · exact List.mem_cons_of_mem _ List.mem_cons_self
      · exact List.mem_cons_of_mem _ (List.mem_cons_of_mem _ hmem)
    · intro c hc
      rcases List.mem_cons.mp hc with rfl | hc
      · exact Std.TransCmp.isLE_trans ha hkept
      · rcases List.mem_cons.mp hc with rfl | hc
        · exact Std.TransCmp.isLE_trans hb hkept
        · exact hle c (List.mem_cons_of_mem _ hc)

variable [Std.LawfulEqCmp cmp]

/-- **The largest member**: where only equal elements tie, it is the one that is picked. -/
theorem maxBy_eq_some_iff {l : List α} {m : α} :
    maxBy cmp l = some m ↔ m ∈ l ∧ ∀ a ∈ l, (cmp a m).isLE := by
  cases l with
  | nil => simp [maxBy]
  | cons a l =>
    obtain ⟨hmem, hle⟩ := foldl_keep cmp l a
    rw [maxBy, Option.some.injEq]
    constructor
    · rintro rfl
      exact ⟨hmem, hle⟩
    · rintro ⟨hm, hmax⟩
      exact Std.LawfulEqCmp.eq_of_compare (Std.OrientedCmp.isLE_antisymm (hmax _ hmem) (hle m hm))

/-- **Batches**: the largest of the largest members is the largest of all. -/
theorem maxBy_append {l l' : List α} {m m' : α} (h : maxBy cmp l = some m)
    (h' : maxBy cmp l' = some m') : maxBy cmp (l ++ l') = maxBy cmp [m, m'] := by
  obtain ⟨winner, hwinner⟩ := exists_maxBy cmp (List.cons_ne_nil m [m'])
  rw [hwinner]
  rw [maxBy_eq_some_iff] at h h' hwinner ⊢
  obtain ⟨hmem, hmax⟩ := hwinner
  refine ⟨?_, fun a ha => ?_⟩
  · rcases List.mem_cons.mp hmem with rfl | hmem
    · exact List.mem_append_left _ h.1
    · rw [List.mem_singleton.mp hmem]
      exact List.mem_append_right _ h'.1
  · rcases List.mem_append.mp ha with ha | ha
    · exact Std.TransCmp.isLE_trans (h.2 a ha) (hmax m List.mem_cons_self)
    · exact Std.TransCmp.isLE_trans (h'.2 a ha) (hmax m' (by simp))

end MaxBy

/-! ## The order of the forks -/

/-- The lexicographic order: the weight, then the height, then the tip hash. -/
def ChainFork.LexLE (left right : ChainFork) : Prop :=
  left.cumulativeStakeWeight < right.cumulativeStakeWeight ∨
    left.cumulativeStakeWeight = right.cumulativeStakeWeight ∧
      (left.height < right.height ∨
        left.height = right.height ∧ (compare left.tipHash right.tipHash).isLE)

instance : Std.TransCmp ChainFork.cmp :=
  inferInstanceAs (Std.TransCmp (compareLex (compareOn ChainFork.cumulativeStakeWeight)
    (compareLex (compareOn ChainFork.height) (compareOn ChainFork.tipHash))))

/-- Only equal forks tie. -/
instance : Std.LawfulEqCmp ChainFork.cmp where
  eq_of_compare {left right} h := by
    obtain ⟨tipHash, height, weight⟩ := left
    obtain ⟨tipHash', height', weight'⟩ := right
    simp only [ChainFork.cmp, Ordering.then_eq_eq, Std.compare_eq_iff_eq] at h
    obtain ⟨rfl, rfl, rfl⟩ := h
    rfl

theorem ChainFork.isLE_cmp_iff {left right : ChainFork} :
    (left.cmp right).isLE ↔ left.LexLE right := by
  rw [ChainFork.cmp, Ordering.isLE_then_iff_or, Ordering.isLE_then_iff_or, ChainFork.LexLE,
    Nat.compare_eq_lt, Nat.compare_eq_eq, Std.compare_eq_lt, Std.compare_eq_iff_eq]

/-- **The fork choice is a consistent total preference.** A list that is not empty has a winner, a
member that is at least every other. A list with the same members, in any order and with any
repetitions, has the same winner, and so has what is left when losing entries are removed. Choosing
between the winners of two lists is choosing from both together. -/
theorem fork_choice_is_total_preference (forks : List ChainFork) (hne : forks ≠ []) :
    ∃ winner ∈ forks, chooseHeaviestChain forks = some winner ∧
      (∀ fork ∈ forks, fork.LexLE winner) ∧
      (∀ forks', (∀ fork, fork ∈ forks' ↔ fork ∈ forks) →
        chooseHeaviestChain forks' = some winner) ∧
      (∀ forks', forks' ⊆ forks → winner ∈ forks' → chooseHeaviestChain forks' = some winner) ∧
      ∀ others winner', chooseHeaviestChain others = some winner' →
        chooseHeaviestChain [winner, winner'] = chooseHeaviestChain (forks ++ others) := by
  obtain ⟨winner, hwinner⟩ := exists_maxBy ChainFork.cmp hne
  obtain ⟨hmem, hmax⟩ := (maxBy_eq_some_iff ChainFork.cmp).mp hwinner
  have hremove : ∀ forks', forks' ⊆ forks → winner ∈ forks' →
      chooseHeaviestChain forks' = some winner := fun forks' hsubset hwin =>
    (maxBy_eq_some_iff ChainFork.cmp).mpr ⟨hwin, fun fork hfork => hmax fork (hsubset hfork)⟩
  refine ⟨winner, hmem, hwinner, fun fork hfork => ChainFork.isLE_cmp_iff.mp (hmax fork hfork),
    fun forks' hsame => ?_, hremove, fun others winner' hothers => ?_⟩
  · exact hremove forks' (fun fork hfork => (hsame fork).mp hfork) ((hsame winner).mpr hmem)
  · exact (maxBy_append ChainFork.cmp hwinner hothers).symm

/-- Of two forks of one weight the higher one wins, in both batches. -/
theorem higher_fork_wins :
    [⟨[1], 4, 7⟩, (⟨[2], 3, 7⟩ : ChainFork)] ≠ [] ∧
      ∃ winner ∈ [⟨[1], 4, 7⟩, (⟨[2], 3, 7⟩ : ChainFork)],
        chooseHeaviestChain [⟨[1], 4, 7⟩, ⟨[2], 3, 7⟩] = some winner ∧
          chooseHeaviestChain [⟨[2], 3, 7⟩, ⟨[1], 4, 7⟩] = some winner := by
  refine ⟨by decide, ?_⟩
  obtain ⟨winner, hmem, hwinner, -, hsame, -⟩ :=
    fork_choice_is_total_preference [⟨[1], 4, 7⟩, ⟨[2], 3, 7⟩] (by decide)
  refine ⟨winner, hmem, hwinner, hsame _ fun fork => ?_⟩
  simp only [List.mem_cons, List.not_mem_nil, or_false]
  exact or_comm

end Prims
