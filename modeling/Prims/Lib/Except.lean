import Mathlib.Data.List.Forall2
import Mathlib.Tactic.Common

/-!
# Early exits

A computation that returns early returns an error, and its steps run in order until one does.

## Main definitions

* `Fault`: the two ways a computation stops early, an error value or a panic
* `ensure`: a check that returns an error when it fails
* `Option.okOr`: a missing value as an error

## Main results

* `Except.bind_eq_ok`, `ensure_eq_ok`: a sequence of steps succeeds when each of its steps does
* `forM_eq_ok`, `mapM_eq_ok`, `foldlM_eq_ok_filterMap`: a loop succeeds when every round does
-/

/-- The two ways a computation stops early: it returns an error, or it panics. -/
inductive Fault (ε : Type) where
  | err (e : ε)
  | panic
  deriving DecidableEq, Repr

variable {ε α β : Type}

/-- The same stop with another error value. -/
def Fault.map {ε' : Type} (f : ε → ε') : Fault ε → Fault ε'
  | .err e => .err (f e)
  | .panic => .panic

/-- Return an error unless the condition holds. -/
def ensure (c : Prop) [Decidable c] (e : ε) : Except ε Unit :=
  if c then .ok () else .error e

/-- Return an error when the value is missing. -/
def Option.okOr (x : Option α) (e : ε) : Except ε α :=
  match x with
  | some a => .ok a
  | none => .error e

theorem ensure_eq_ok {c : Prop} [Decidable c] {e : ε} {u : Unit} : ensure c e = .ok u ↔ c := by
  unfold ensure
  split <;> simp_all

theorem Except.bind_eq_ok {x : Except ε α} {f : α → Except ε β} {b : β} :
    (x >>= f) = .ok b ↔ ∃ a, x = .ok a ∧ f a = .ok b := by
  cases x <;> simp [bind, Except.bind]

theorem Except.mapError_eq_ok {ε' : Type} {x : Except ε α} {f : ε → ε'} {a : α} :
    x.mapError f = .ok a ↔ x = .ok a := by
  cases x <;> simp [Except.mapError]

theorem Option.okOr_eq_ok {x : Option α} {e : ε} {a : α} : x.okOr e = .ok a ↔ x = some a := by
  cases x <;> simp [Option.okOr]

theorem Except.toOption_eq_some {x : Except ε α} {a : α} : x.toOption = some a ↔ x = .ok a := by
  cases x <;> simp [Except.toOption]

/-- A check followed by the rest of the computation. -/
@[simp] theorem ensure_bind_eq_ok {c : Prop} [Decidable c] {e : ε} {x : Except ε β} {b : β} :
    (ensure c e >>= fun _ => x) = .ok b ↔ c ∧ x = .ok b := by
  rw [Except.bind_eq_ok]
  constructor
  · rintro ⟨u, hc, hx⟩
    exact ⟨ensure_eq_ok.mp hc, hx⟩
  · rintro ⟨hc, hx⟩
    exact ⟨(), ensure_eq_ok.mpr hc, hx⟩

/-- A loop succeeds when every one of its rounds does. -/
theorem forM_eq_ok {l : List α} {f : α → Except ε Unit} :
    l.forM f = .ok () ↔ ∀ a ∈ l, f a = .ok () := by
  induction l with
  | nil => exact iff_of_true rfl fun a ha => absurd ha List.not_mem_nil
  | cons a l ih =>
    show (f a >>= fun _ => l.forM f) = .ok () ↔ _
    rw [Except.bind_eq_ok, List.forall_mem_cons, ← ih]
    exact ⟨fun ⟨_, ha, hl⟩ => ⟨ha, hl⟩, fun ⟨ha, hl⟩ => ⟨(), ha, hl⟩⟩

/-- A loop that collects results, when every round succeeds. -/
theorem mapM_eq_ok_map {l : List α} {f : α → Except ε β} {g : α → β}
    (h : ∀ a ∈ l, f a = .ok (g a)) : l.mapM f = .ok (l.map g) := by
  induction l with
  | nil => rfl
  | cons a l ih =>
    rw [List.mapM_cons, h a List.mem_cons_self, ih fun b hb => h b (List.mem_cons_of_mem a hb)]
    rfl

/-- A loop that collects results, when every round succeeds with what a function picks. -/
theorem mapM_eq_ok_filterMap {l : List α} {f : α → Except ε β} {g : α → Option β}
    (h : ∀ a ∈ l, ∃ b, f a = .ok b ∧ g a = some b) : l.mapM f = .ok (l.filterMap g) := by
  induction l with
  | nil => rfl
  | cons a l ih =>
    obtain ⟨b, hf, hg⟩ := h a List.mem_cons_self
    rw [List.mapM_cons, hf, ih fun a' ha' => h a' (List.mem_cons_of_mem a ha'),
      List.filterMap_cons_some hg]
    rfl

/-- The results that a loop collects are those of its rounds, one by one. -/
theorem mapM_eq_ok {l : List α} {f : α → Except ε β} {bs : List β} :
    l.mapM f = .ok bs ↔ List.Forall₂ (fun a b => f a = .ok b) l bs := by
  induction l generalizing bs with
  | nil => cases bs <;> simp [pure, Except.pure]
  | cons a l ih =>
    rw [List.mapM_cons, Except.bind_eq_ok, List.forall₂_cons_left_iff]
    refine exists_congr fun b => ?_
    simp only [Except.bind_eq_ok, ih, pure, Except.pure, Except.ok.injEq, exists_and_left,
      eq_comm (b := bs)]

/-- Results for all elements, one by one. -/
theorem exists_forall₂ {r : α → β → Prop} {l : List α} (h : ∀ a ∈ l, ∃ b, r a b) :
    ∃ bs, List.Forall₂ r l bs := by
  induction l with
  | nil => exact ⟨[], .nil⟩
  | cons a l ih =>
    obtain ⟨b, hb⟩ := h a List.mem_cons_self
    obtain ⟨bs, hbs⟩ := ih fun a' ha' => h a' (List.mem_cons_of_mem a ha')
    exact ⟨b :: bs, .cons hb hbs⟩

/-- A loop that collects the results that are there, when every round succeeds. -/
theorem foldlM_eq_ok_filterMap {l : List α} {step : List β → α → Except ε (List β)}
    {g : α → Option β} (h : ∀ a ∈ l, ∀ bs, step bs a = .ok (bs ++ (g a).toList)) (acc : List β) :
    l.foldlM step acc = .ok (acc ++ l.filterMap g) := by
  induction l generalizing acc with
  | nil => simp [pure, Except.pure]
  | cons a l ih =>
    have hrest := ih fun b hb => h b (List.mem_cons_of_mem a hb)
    rw [List.foldlM_cons, h a List.mem_cons_self]
    refine (hrest _).trans ?_
    cases hg : g a with
    | none => rw [List.filterMap_cons_none hg, Option.toList_none, List.append_nil]
    | some b =>
      rw [List.filterMap_cons_some hg, Option.toList_some, List.append_assoc,
        List.singleton_append]
