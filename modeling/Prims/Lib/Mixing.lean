import Mathlib.Data.Finite.Prod
import Mathlib.Data.Fintype.EquivFin
import Mathlib.Data.UInt

/-!
# Mixing words

Steps on words of 64 bits that lose nothing: a word is combined with a shifted copy of itself by
exclusive or, and it is multiplied by an odd constant. A loop of steps that lose nothing, each of
them with an input of its own, loses nothing of the word it starts with; and two inputs that differ
in one place lead to different words.

## Main results

* `xorShift_injective`, `mul_injective`: the two steps
* `foldl_injective`: the loop as a function of the word it starts with
* `foldl_ne_of_ne`: the loop as a function of one of its inputs
* `exists_split_of_differ`: messages that differ in exactly one place
-/

namespace Mixing

/-! ## Steps -/

instance finiteUInt64 : Finite UInt64 :=
  Finite.of_injective UInt64.toFin fun _ _ => UInt64.toFin_inj.mp

/-- A word that is a shifted copy of itself is zero. -/
theorem eq_zero_of_eq_shiftRight {z k : UInt64} (hpos : 0 < k) (hlt : k < 64)
    (h : z = z >>> k) : z = 0 := by
  have hk : 0 < k.toNat := UInt64.lt_iff_toNat_lt.mp hpos
  have hk' : k.toNat < 64 := UInt64.lt_iff_toNat_lt.mp hlt
  have hnat := congrArg UInt64.toNat h
  rw [UInt64.toNat_shiftRight, Nat.mod_eq_of_lt hk', Nat.shiftRight_eq_div_pow] at hnat
  apply UInt64.toNat_inj.mp
  by_contra hne
  have hdiv := Nat.div_lt_self (Nat.pos_of_ne_zero hne) (Nat.one_lt_two_pow hk.ne')
  omega

/-- **A shifted copy**: the word is read off its exclusive or with a shifted copy of itself. -/
theorem xorShift_injective (k : UInt64) (hpos : 0 < k) (hlt : k < 64) :
    Function.Injective fun value : UInt64 => value ^^^ (value >>> k) := by
  intro x y h
  -- the difference of the two words is a shifted copy of itself
  have hshift : x ^^^ y = (x ^^^ y) >>> k := by
    have hswap : (x ^^^ y) ^^^ ((x >>> k) ^^^ (y >>> k)) =
        (x ^^^ (x >>> k)) ^^^ (y ^^^ (y >>> k)) := by ac_rfl
    rw [UInt64.shiftRight_xor, ← UInt64.xor_eq_zero_iff, hswap]
    exact UInt64.xor_eq_zero_iff.mpr h
  exact UInt64.xor_eq_zero_iff.mp (eq_zero_of_eq_shiftRight hpos hlt hshift)

/-- **An odd constant** has an inverse, so the factor is read off the product. -/
theorem mul_injective (c inverse : UInt64) (h : c * inverse = 1) :
    Function.Injective fun value : UInt64 => value * c := by
  refine Function.LeftInverse.injective (g := fun value => value * inverse) fun value => ?_
  dsimp only
  rw [UInt64.mul_assoc, h, UInt64.mul_one]

/-! ## Loops -/

section Loop

variable {σ α : Type} {step : σ → α → σ} (hstep : ∀ a, Function.Injective fun s => step s a)
include hstep

/-- **The loop** loses nothing of the word it starts with. -/
theorem foldl_injective (l : List α) : Function.Injective fun s => l.foldl step s := by
  induction l with
  | nil => exact fun _ _ h => h
  | cons a l ih => exact fun _ _ h => hstep a (ih h)

/-- **One input** that differs leads to another word. -/
theorem foldl_ne_of_ne {before after : List α} {a b : α} {s : σ}
    (h : step (before.foldl step s) a ≠ step (before.foldl step s) b) :
    (before ++ a :: after).foldl step s ≠ (before ++ b :: after).foldl step s := by
  rw [List.foldl_append, List.foldl_append, List.foldl_cons, List.foldl_cons]
  exact fun heq => h (foldl_injective hstep after heq)

end Loop

/-! ## Messages that differ in one place -/

/-- Two lists of one length that differ in exactly one place agree before it and after it. -/
theorem exists_split_of_differ {α : Type} {l l' : List α} (hlength : l.length = l'.length)
    (h : ∃! i : ℕ, l[i]? ≠ l'[i]?) : ∃ before a b after, a ≠ b ∧ l = before ++ a :: after ∧
      l' = before ++ b :: after := by
  obtain ⟨i, hi, hunique⟩ := h
  have hsame : ∀ j, j ≠ i → l[j]? = l'[j]? := fun j hj =>
    Classical.byContradiction fun hne => hj (hunique j hne)
  have hlt : i < l.length := by
    by_contra hge
    rw [List.getElem?_eq_none (by omega), List.getElem?_eq_none (by omega)] at hi
    exact hi rfl
  have hlt' : i < l'.length := hlength ▸ hlt
  rw [List.getElem?_eq_getElem hlt, List.getElem?_eq_getElem hlt'] at hi
  have hbefore : l.take i = l'.take i := by
    apply List.ext_getElem?
    intro j
    rw [List.getElem?_take, List.getElem?_take]
    split
    · next hj => exact hsame j hj.ne
    · rfl
  have hafter : l.drop (i + 1) = l'.drop (i + 1) := by
    apply List.ext_getElem?
    intro j
    rw [List.getElem?_drop, List.getElem?_drop]
    exact hsame _ (by omega)
  refine ⟨l.take i, l[i], l'[i], l.drop (i + 1), fun heq => hi (by rw [heq]), ?_, ?_⟩
  · rw [← List.drop_eq_getElem_cons hlt, List.take_append_drop]
  · rw [hbefore, hafter, ← List.drop_eq_getElem_cons hlt', List.take_append_drop]

end Mixing
