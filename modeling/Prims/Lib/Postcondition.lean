import Prims.Lib.Simulation

/-!
# Postconditions of procedures

A procedure ends with a value or with an error, and it leaves a state in both cases. `Ends` says
something about both ends of a run. There is a rule for each way to build a procedure, so that the
proof of a postcondition follows the text of the procedure: a step that fails is answered at once,
and a step that succeeds hands its value and its state on.

## Main definitions

* `Procedure.Ends m s returns fails`: the postconditions of a run of `m` from `s`

## Main results

* `Procedure.Ends.bind`: the rule of sequencing
* `Procedure.Ends.lift_bind`, `Procedure.Ends.read_bind`: the rules for a first step that leaves the
  state alone
-/

variable {ε σ τ α β : Type}

/-- **The postconditions of a run**: `returns` holds of the value and the state after it, or `fails`
holds of the error and the state after it. -/
def Procedure.Ends (m : Procedure ε σ α) (s : σ) (returns : α → σ → Prop)
    (fails : ε → σ → Prop) : Prop :=
  match m.run s with
  | (.ok a, s') => returns a s'
  | (.error e, s') => fails e s'

namespace Procedure.Ends

variable {m : Procedure ε σ α} {f : α → Procedure ε σ β} {s : σ} {fails : ε → σ → Prop}

theorem pure {returns : α → σ → Prop} {a : α} (h : returns a s) :
    (Pure.pure a : Procedure ε σ α).Ends s returns fails := h

/-- A weaker postcondition. -/
theorem mono {returns returns' : α → σ → Prop} {fails' : ε → σ → Prop}
    (h : m.Ends s returns fails) (hreturns : ∀ a s', returns a s' → returns' a s')
    (hfails : ∀ e s', fails e s' → fails' e s') : m.Ends s returns' fails' := by
  rcases hrun : m.run s with ⟨result, s'⟩
  rw [Ends, hrun] at h ⊢
  cases result with
  | ok a => exact hreturns a s' h
  | error e => exact hfails e s' h

/-- **Sequencing**: the second procedure meets the postconditions where the first one ends. -/
theorem bind {returns : β → σ → Prop}
    (h : m.Ends s (fun a s' => (f a).Ends s' returns fails) fails) :
    (m >>= f).Ends s returns fails := by
  rw [Ends, Procedure.bind_run]
  rcases hrun : m.run s with ⟨result, s'⟩
  rw [Ends, hrun] at h
  cases result with
  | ok a => exact h
  | error e => exact h

theorem lift_bind {x : Except ε α} {returns : β → σ → Prop} (hfails : ∀ e, x = .error e → fails e s)
    (hrest : ∀ a, x = .ok a → (f a).Ends s returns fails) :
    (Procedure.lift x >>= f).Ends s returns fails := by
  apply bind
  cases x with
  | ok a => exact hrest a rfl
  | error e => exact hfails e rfl

theorem read_bind {g : σ → Except ε α} {returns : β → σ → Prop}
    (hfails : ∀ e, g s = .error e → fails e s)
    (hrest : ∀ a, g s = .ok a → (f a).Ends s returns fails) :
    (Procedure.read g >>= f).Ends s returns fails := by
  rw [Ends, Procedure.read_bind_run]
  cases hread : g s with
  | ok a => exact hrest a hread
  | error e => exact hfails e hread

/-- On a part of the state, the rest of it stays. -/
theorem zoom {get : σ → τ} {set : σ → τ → σ} {m : Procedure ε τ α} {returns : α → σ → Prop}
    (h : m.Ends (get s) (fun a t => returns a (set s t)) fun e t => fails e (set s t)) :
    (Procedure.zoom get set m).Ends s returns fails := by
  show match ((m.run (get s)).1, set s (m.run (get s)).2) with
    | (.ok a, s') => returns a s'
    | (.error e, s') => fails e s'
  rcases hrun : m.run (get s) with ⟨result, t⟩
  rw [Ends, hrun] at h
  cases result with
  | ok a => exact h
  | error e => exact h

end Procedure.Ends
