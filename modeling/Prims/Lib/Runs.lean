import Mathlib.Data.List.Infix
import Mathlib.Tactic.Common

/-!
# Properties along runs

A system takes calls one after the other. A property holds along a run when it holds in every state
of the run, the first one and the last one included; a condition on calls holds along a run when
every call meets it in the state in which it is made.

Where a call keeps the property exactly when it meets the condition, the property holds along a run
exactly when the condition does.

## Main definitions

* `EveryCall step p s calls`: every call of a run from `s` meets `p` in its state

## Main results

* `forall_prefix_iff_everyCall`: a property along a run in terms of the calls
-/

section Runs

variable {σ γ : Type} (step : σ → γ → σ)

/-- Every call of a run meets a condition in the state in which it is made. -/
def EveryCall (p : σ → γ → Prop) : σ → List γ → Prop
  | _, [] => True
  | s, call :: calls => p s call ∧ EveryCall p (step s call) calls

variable {step}

/-- **A property along a run**: when the first state has it, and a call keeps it exactly when it
meets the condition, all states have it exactly when all calls meet the condition. The invariant
holds whether the condition is met or not. -/
theorem forall_prefix_iff_everyCall {invariant property : σ → Prop} {p : σ → γ → Prop}
    (hinvariant : ∀ s call, invariant s → invariant (step s call))
    (hstep : ∀ s call, invariant s → property s → (property (step s call) ↔ p s call))
    {s : σ} (hs : invariant s) (hproperty : property s) (calls : List γ) :
    (∀ earlier, earlier <+: calls → property (earlier.foldl step s)) ↔
      EveryCall step p s calls := by
  induction calls generalizing s with
  | nil =>
    refine iff_of_true (fun earlier hearlier => ?_) trivial
    rw [List.prefix_nil.mp hearlier]
    exact hproperty
  | cons call calls ih =>
    constructor
    · intro hall
      have hfirst : property (step s call) := hall [call] (List.prefix_append [call] calls)
      refine ⟨(hstep s call hs hproperty).mp hfirst,
        (ih (hinvariant s call hs) hfirst).mp fun earlier hearlier => ?_⟩
      exact hall (call :: earlier) ((List.prefix_cons_inj call).mpr hearlier)
    · rintro ⟨hcall, hrun⟩ earlier hearlier
      rcases List.prefix_cons_iff.mp hearlier with rfl | ⟨later, rfl, hlater⟩
      · exact hproperty
      · exact (ih (hinvariant s call hs) ((hstep s call hs hproperty).mpr hcall)).mpr hrun later
          hlater

end Runs
