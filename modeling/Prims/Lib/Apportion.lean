import Mathlib.Algebra.BigOperators.Group.List.Basic
import Mathlib.Algebra.Order.BigOperators.Group.List
import Mathlib.Algebra.Order.Ring.Nat

/-!
# Apportionment

A pool is split among the entries of a list by their weights. Every entry gets its share rounded
down. What the rounding leaves is less than the number of the entries, so that giving one more to
the first ones, as long as there is some left, splits the pool without a rest.

## Main definitions

* `share pool total weight`: the share of one entry, rounded down
* `topUp inc n l`: the first `n` entries get one more

## Main results

* `sum_share_le`: the shares are at most the pool
* `sub_sum_share_lt`: what they leave is less than the number of the entries
* `sum_topUp`: what the entries that get one more add
-/

namespace Apportion

/-- The share of one entry, rounded down. -/
def share (pool total weight : ℕ) : ℕ := pool * weight / total

theorem share_le {pool total weight : ℕ} (h : weight ≤ total) : share pool total weight ≤ pool := by
  apply Nat.div_le_of_le_mul
  rw [Nat.mul_comm]
  exact Nat.mul_le_mul_right pool h

section Shares

variable {α : Type} (w : α → ℕ) (pool total : ℕ) (l : List α)

/-- The shares and the remainders of the divisions are all of it. -/
theorem mul_sum_share_add : total * (l.map fun a => share pool total (w a)).sum +
    (l.map fun a => pool * w a % total).sum = pool * (l.map w).sum := by
  induction l with
  | nil => simp
  | cons a l ih =>
    have hdiv := Nat.div_add_mod (pool * w a) total
    simp only [List.map_cons, List.sum_cons, Nat.mul_add, ← ih, share] at *
    omega

variable {w pool total l} (hpos : 0 < (l.map w).sum)
include hpos

/-- **The shares** are at most the pool. -/
theorem sum_share_le : (l.map fun a => share pool (l.map w).sum (w a)).sum ≤ pool := by
  have h := mul_sum_share_add w pool (l.map w).sum l
  rw [Nat.mul_comm pool] at h
  exact Nat.le_of_mul_le_mul_left (h ▸ Nat.le_add_right _ _) hpos

/-- **What the shares leave** is less than the number of the entries. -/
theorem sub_sum_share_lt :
    pool - (l.map fun a => share pool (l.map w).sum (w a)).sum < l.length := by
  have h := mul_sum_share_add w pool (l.map w).sum l
  have hne : l ≠ [] := by
    rintro rfl
    simp at hpos
  -- what is left is the sum of the remainders, and each of them is less than the divisor
  have hrest : (l.map fun a => pool * w a % (l.map w).sum).sum < l.length * (l.map w).sum := by
    have hlt := List.sum_lt_sum_of_ne_nil hne (fun a => pool * w a % (l.map w).sum)
      (fun _ => (l.map w).sum) fun a _ => Nat.mod_lt _ hpos
    rwa [List.map_const', List.sum_replicate_nat] at hlt
  refine Nat.lt_of_mul_lt_mul_left (a := (l.map w).sum) ?_
  rw [Nat.mul_sub, Nat.mul_comm _ pool, Nat.mul_comm _ l.length, ← h, Nat.add_sub_cancel_left]
  exact hrest

end Shares

section TopUp

variable {α : Type} (inc : α → α)

/-- The first `n` entries get one more. -/
def topUp (n : ℕ) (l : List α) : List α := (l.take n).map inc ++ l.drop n

variable {inc} {amount : α → ℕ} {n : ℕ} {l : List α}

theorem sum_topUp (hinc : 0 < n → ∀ a ∈ l, amount (inc a) = amount a + 1) (hn : n ≤ l.length) :
    ((topUp inc n l).map amount).sum = (l.map amount).sum + n := by
  rcases Nat.eq_zero_or_pos n with rfl | hpos
  · rfl
  · have htake : (((l.take n).map inc).map amount).sum = ((l.take n).map amount).sum + n := by
      have hmap : ((l.take n).map inc).map amount = (l.take n).map fun a => amount a + 1 := by
        rw [List.map_map]
        exact List.map_congr_left fun a ha => hinc hpos a (List.mem_of_mem_take ha)
      rw [hmap, List.sum_map_add, List.map_const', List.sum_replicate_nat,
        List.length_take_of_le hn, Nat.mul_one]
    have hsplit : (l.map amount).sum =
        ((l.take n).map amount).sum + ((l.drop n).map amount).sum := by
      rw [← List.sum_append, ← List.map_append, List.take_append_drop]
    rw [topUp, List.map_append, List.sum_append, htake, hsplit]
    omega

/-- Every entry keeps what it has, or gets one more. -/
theorem forall₂_topUp {β : Type} {r s : β → α → Prop} {m : List β} (h : List.Forall₂ r m l)
    (hsame : ∀ b a, r b a → s b a) (hinc : 0 < n → ∀ b a, r b a → s b (inc a)) :
    List.Forall₂ s m (topUp inc n l) := by
  induction h generalizing n with
  | nil => cases n <;> exact .nil
  | @cons b a m l hba h ih =>
    cases n with
    | zero => exact .cons (hsame b a hba) (ih fun hpos => absurd hpos (Nat.lt_irrefl 0))
    | succ n => exact .cons (hinc n.succ_pos b a hba) (ih fun _ => hinc n.succ_pos)

end TopUp

end Apportion
