import Mathlib.Algebra.BigOperators.Group.List.Basic
import Mathlib.Data.List.Nodup
import Mathlib.Tactic.Ring

/-!
# Weighted quorums

The members of a list carry weights, and a property of the members weighs as much as the members
that have it. A quorum is a property that weighs more than two thirds of everything. Two quorums
overlap in more than a third, whatever the weights: this is the counting behind every
accountable-safety argument.

## Main definitions

* `weight w l p`: the weight of the members of `l` with property `p`
* `IsQuorum w l p`: the property weighs more than two thirds of the list

## Main results

* `weight_add_weight`: inclusion and exclusion
* `weight_key`: a key that no two members share picks out the weight of one member
* `IsQuorum.overlap`: two quorums overlap in more than a third
-/

namespace Quorum

variable {α κ : Type} (w : α → ℕ)

/-- The weight of the members of a list that have a property. -/
def weight (l : List α) (p : α → Prop) [DecidablePred p] : ℕ :=
  ((l.filter p).map w).sum

/-- A property of more than two thirds of the weight. -/
def IsQuorum (l : List α) (p : α → Prop) [DecidablePred p] : Prop :=
  2 * (l.map w).sum < 3 * weight w l p

section Weight

variable {w} {l : List α} {p q : α → Prop} [DecidablePred p] [DecidablePred q]

theorem weight_nil : weight w [] p = 0 := rfl

theorem weight_cons (a : α) :
    weight w (a :: l) p = (if p a then w a else 0) + weight w l p := by
  by_cases h : p a <;> simp [weight, h]

theorem weight_congr (h : ∀ a ∈ l, p a ↔ q a) : weight w l p = weight w l q := by
  have hf : l.filter (fun a => decide (p a)) = l.filter (fun a => decide (q a)) :=
    List.filter_congr fun a ha => by simp [h a ha]
  simp only [weight, hf]

theorem weight_mono (h : ∀ a ∈ l, p a → q a) : weight w l p ≤ weight w l q := by
  induction l with
  | nil => exact le_rfl
  | cons a l ih =>
    have ih := ih fun b hb => h b (List.mem_cons_of_mem _ hb)
    have ha := h a List.mem_cons_self
    rw [weight_cons, weight_cons]
    by_cases hp : p a
    · simp [hp, ha hp, ih]
    · simp only [hp, if_false]
      split_ifs <;> omega

theorem weight_le_sum : weight w l p ≤ (l.map w).sum := by
  induction l with
  | nil => exact le_rfl
  | cons a l ih =>
    rw [weight_cons, List.map_cons, List.sum_cons]
    split_ifs <;> omega

/-- Inclusion and exclusion. -/
theorem weight_add_weight :
    weight w l p + weight w l q =
      weight w l (fun a => p a ∨ q a) + weight w l (fun a => p a ∧ q a) := by
  induction l with
  | nil => rfl
  | cons a l ih =>
    simp only [weight_cons]
    by_cases hp : p a <;> by_cases hq : q a <;> simp only [hp, hq, if_true, if_false,
      or_true, true_or, or_self, and_self, and_true, true_and] <;> omega

theorem weight_eq_zero (h : ∀ a ∈ l, ¬ p a) : weight w l p = 0 := by
  have hf : l.filter (fun a => decide (p a)) = [] :=
    List.filter_eq_nil_iff.mpr fun a ha => by simp [h a ha]
  simp [weight, hf]

/-- Disjoint properties add up. -/
theorem weight_or (h : ∀ a ∈ l, ¬ (p a ∧ q a)) :
    weight w l (fun a => p a ∨ q a) = weight w l p + weight w l q := by
  rw [weight_add_weight, weight_eq_zero h, Nat.add_zero]

/-- When no two members share a key, a key weighs as much as its one member. -/
theorem weight_key [DecidableEq κ] {key : α → κ} (hl : (l.map key).Nodup) {a : α} (ha : a ∈ l) :
    weight w l (fun b => key b = key a) = w a := by
  induction l with
  | nil => cases ha
  | cons b l ih =>
    rw [List.map_cons, List.nodup_cons] at hl
    rw [weight_cons]
    rcases List.mem_cons.mp ha with rfl | ha'
    · rw [if_pos rfl, weight_eq_zero, Nat.add_zero]
      intro c hc hk
      exact hl.1 (hk ▸ List.mem_map_of_mem hc)
    · have hne : key b ≠ key a := fun hk => hl.1 (hk ▸ List.mem_map_of_mem ha')
      rw [if_neg hne, ih hl.2 ha', Nat.zero_add]

/-- **Two quorums overlap in more than a third** of the weight. -/
theorem IsQuorum.overlap (hp : IsQuorum w l p) (hq : IsQuorum w l q) :
    (l.map w).sum < 3 * weight w l (fun a => p a ∧ q a) := by
  have hadd := weight_add_weight (w := w) (l := l) (p := p) (q := q)
  have hle := weight_le_sum (w := w) (l := l) (p := fun a => p a ∨ q a)
  unfold IsQuorum at hp hq
  omega

end Weight

end Quorum
