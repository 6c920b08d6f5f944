import Mathlib.Algebra.BigOperators.Group.List.Basic
import Mathlib.Data.Finset.Interval
import Mathlib.Order.Interval.Finset.Nat

/-!
# Weighted draws

Every entry of a list holds as many lots as it weighs. The lots are numbered through, in the order
of the list, and a draw is the number of a lot. The entry that holds it is found by adding up the
weights until the sum is above the draw.

The lots of an entry are the numbers from the weight of the entries before it up to its own weight
added. What a draw picks depends on the list of the lots alone, so that entries with one key may
change places among themselves: the key of what is picked stays the same.

## Main definitions

* `pick w draw`: the loop that adds up the weights
* `lots w l`: the holders of the lots, in the order of their numbers
* `offset w l i`: the weight of the entries before the place `i`

## Main results

* `pick_eq_getElem?`: a draw picks the holder of its lot
* `pick_zipIdx_eq_some_iff`: the lots of an entry
* `card_filter_offset`: there are as many of them as the entry weighs
* `map_lots_eq_of_perm`: the keys of the lots do not depend on the order among equal keys
-/

namespace Draw

variable {α β κ : Type}

/-- Add up the weights until the sum is above the draw. -/
def pick (w : α → ℕ) (draw : ℕ) : ℕ → List α → Option α
  | _, [] => none
  | cumulative, a :: l =>
    if draw < cumulative + w a then some a else pick w draw (cumulative + w a) l

/-- The holders of the lots. -/
def lots (w : α → ℕ) (l : List α) : List α := l.flatMap fun a => List.replicate (w a) a

/-- The weight of the entries before a place. -/
def offset (w : α → ℕ) (l : List α) (i : ℕ) : ℕ := ((l.take i).map w).sum

section Lots

variable (w : α → ℕ)

theorem lots_cons (a : α) (l : List α) : lots w (a :: l) = List.replicate (w a) a ++ lots w l := rfl

theorem length_lots (l : List α) : (lots w l).length = (l.map w).sum := by
  rw [lots, List.length_flatMap]
  simp only [List.length_replicate]

/-- **A draw picks the holder of its lot.** -/
theorem pick_eq_getElem? (l : List α) {cumulative draw : ℕ} (h : cumulative ≤ draw) :
    pick w draw cumulative l = (lots w l)[draw - cumulative]? := by
  induction l generalizing cumulative with
  | nil => rfl
  | cons a l ih =>
    rw [pick, lots_cons]
    split
    · next hlt =>
      rw [List.getElem?_append_left (by rw [List.length_replicate]; omega),
        List.getElem?_replicate, if_pos (by omega)]
    · next hge =>
      rw [ih (by omega), List.getElem?_append_right (by rw [List.length_replicate]; omega),
        List.length_replicate, Nat.sub_sub]

theorem mem_of_mem_lots {l : List α} {a : α} (h : a ∈ lots w l) : a ∈ l := by
  obtain ⟨b, hb, hab⟩ := List.mem_flatMap.mp h
  rwa [List.eq_of_mem_replicate hab]

/-- A draw below the weight of all entries picks one of them. -/
theorem exists_pick_eq_some {l : List α} {draw : ℕ} (h : draw < (l.map w).sum) :
    ∃ a ∈ l, pick w draw 0 l = some a := by
  rw [← length_lots] at h
  refine ⟨(lots w l)[draw], mem_of_mem_lots w (List.getElem_mem h), ?_⟩
  rw [pick_eq_getElem? w l draw.zero_le, Nat.sub_zero, List.getElem?_eq_getElem h]

/-- What is picked from a list of images is the image of what is picked. -/
theorem pick_map (f : β → α) (draw cumulative : ℕ) (l : List β) :
    pick w draw cumulative (l.map f) = (pick (w ∘ f) draw cumulative l).map f := by
  induction l generalizing cumulative with
  | nil => rfl
  | cons b l ih =>
    rw [List.map_cons, pick, pick, Function.comp_apply]
    split
    · rfl
    · exact ih _

end Lots

/-! ## The lots of an entry -/

section Offsets

variable (w : α → ℕ) (l : List α)

theorem offset_zero : offset w l 0 = 0 := by
  rw [offset, List.take_zero]
  rfl

theorem offset_cons_succ (a : α) (i : ℕ) :
    offset w (a :: l) (i + 1) = w a + offset w l i := by
  rw [offset, List.take_succ_cons, List.map_cons, List.sum_cons, offset]

theorem offset_le (i : ℕ) : offset w l i ≤ (l.map w).sum := by
  have hsplit : (l.map w).sum = ((l.take i).map w).sum + ((l.drop i).map w).sum := by
    rw [← List.sum_append, ← List.map_append, List.take_append_drop]
  rw [hsplit]
  exact Nat.le_add_right _ _

theorem offset_succ {i : ℕ} (h : i < l.length) : offset w l (i + 1) = offset w l i + w l[i] := by
  rw [offset, List.take_add_one, List.getElem?_eq_getElem h, Option.toList_some, List.map_append,
    List.sum_append, List.map_singleton, List.sum_singleton, offset]

/-- **The lots of an entry**: the draw stops at a place if and only if it is not below the weight of
the entries before the place, and below that weight with the entry's own added. -/
theorem pick_zipIdx_eq_some_iff {draw cumulative n : ℕ} (h : cumulative ≤ draw) (a : α) (j : ℕ) :
    pick (fun e : α × ℕ => w e.1) draw cumulative (l.zipIdx n) = some (a, j) ↔
      ∃ i, j = n + i ∧ l[i]? = some a ∧
        cumulative + offset w l i ≤ draw ∧ draw < cumulative + offset w l (i + 1) := by
  induction l generalizing cumulative n with
  | nil => simp [pick]
  | cons b l ih =>
    rw [List.zipIdx_cons, pick]
    dsimp only
    split
    · next hlt =>
      constructor
      · rintro ⟨⟩
        refine ⟨0, rfl, rfl, ?_, ?_⟩
        · rw [offset_zero]
          exact h
        · rw [offset_cons_succ, offset_zero]
          exact hlt
      · rintro ⟨i, rfl, ha, hle, -⟩
        cases i with
        | zero => rw [List.getElem?_cons_zero] at ha; cases ha; rfl
        | succ i =>
          rw [offset_cons_succ] at hle
          omega
    · next hge =>
      rw [ih (by omega)]
      constructor
      · rintro ⟨i, rfl, ha, hle, hlt⟩
        refine ⟨i + 1, by omega, ha, ?_, ?_⟩
        · rw [offset_cons_succ]
          omega
        · rw [offset_cons_succ]
          omega
      · rintro ⟨i, rfl, ha, hle, hlt⟩
        cases i with
        | zero =>
          rw [offset_cons_succ, offset_zero] at hlt
          omega
        | succ i =>
          rw [offset_cons_succ] at hle hlt
          exact ⟨i, by omega, ha, by omega, by omega⟩

/-- An entry has as many lots as it weighs. -/
theorem card_filter_offset {i : ℕ} (h : i < l.length) :
    ((Finset.range (l.map w).sum).filter fun draw =>
      offset w l i ≤ draw ∧ draw < offset w l (i + 1)).card = w l[i] := by
  have hle := offset_le w l (i + 1)
  have hinterval : (Finset.range (l.map w).sum).filter (fun draw =>
      offset w l i ≤ draw ∧ draw < offset w l (i + 1)) =
        Finset.Ico (offset w l i) (offset w l (i + 1)) := by
    ext draw
    rw [Finset.mem_filter, Finset.mem_range, Finset.mem_Ico]
    omega
  rw [hinterval, Nat.card_Ico, offset_succ w l h]
  omega

end Offsets

/-! ## The order among equal keys -/

section Keys

variable (w : α → ℕ) {key : α → κ} {r : κ → κ → Prop}

/-- The lots of a list in the order of its keys are in that order. -/
theorem pairwise_map_lots (hrefl : ∀ k, r k k) {l : List α}
    (h : l.Pairwise fun a b => r (key a) (key b)) : ((lots w l).map key).Pairwise r := by
  rw [List.pairwise_map, lots, List.pairwise_flatMap]
  refine ⟨fun a _ => ?_, h.imp fun {a b} hab x hx y hy => ?_⟩
  · exact List.pairwise_replicate.mpr (.inr (hrefl _))
  · rwa [List.eq_of_mem_replicate hx, List.eq_of_mem_replicate hy]

/-- **The keys of the lots** do not depend on the order among entries with one key. -/
theorem map_lots_eq_of_perm (hrefl : ∀ k, r k k) (hantisymm : ∀ k k', r k k' → r k' k → k = k')
    {l l' : List α} (hperm : l.Perm l') (h : l.Pairwise fun a b => r (key a) (key b))
    (h' : l'.Pairwise fun a b => r (key a) (key b)) :
    (lots w l).map key = (lots w l').map key := by
  have hlots : ((lots w l).map key).Perm ((lots w l').map key) := (hperm.flatMap_right _).map key
  exact hlots.eq_of_pairwise (fun k k' _ _ => hantisymm k k') (pairwise_map_lots w hrefl h)
    (pairwise_map_lots w hrefl h')

end Keys

end Draw
