import Prims.Lib.Except

/-!
# Procedures, interactions and simulations

A procedure runs on a state: it returns a value or an error, and in both cases it leaves a state. An
interaction is a program that asks questions and goes on with the answers; any finite behaviour
that depends on what it is told is one. A handler answers the questions, and with it an interaction
becomes a procedure.

Two procedures on different states simulate one another along a relation when related states give
the same result and related states again. Simulation goes through sequencing and through every
interaction, so two handlers that answer alike cannot be told apart by any interaction.

## Main definitions

* `Procedure ε σ α`: a procedure on `σ`
* `Interaction Q A α`, `Interaction.run`: programs that ask, and their meaning under a handler
* `Interaction.Asks p`: every question that may be asked satisfies `p`
* `Simulates R m n`: the procedures `m` and `n` simulate one another along `R`

## Main results

* `Simulates.bind`: simulation goes through sequencing
* `Simulates.run`: handlers that simulate one another give the same meaning to every interaction
-/

/-- A procedure on a state: it leaves a state whether it fails or not. -/
abbrev Procedure (ε σ α : Type) := ExceptT ε (StateM σ) α

section Procedures

variable {ε σ α β : Type}

/-- A computation that does not touch the state. -/
def Procedure.lift (x : Except ε α) : Procedure ε σ α := fun s => (x, s)

/-- Read the state. -/
def Procedure.read (f : σ → Except ε α) : Procedure ε σ α := fun s => (f s, s)

/-- Change the state. -/
def Procedure.modify (f : σ → σ) : Procedure ε σ Unit := fun s => (.ok (), f s)

/-- Run a procedure on a part of the state. -/
def Procedure.zoom {τ : Type} (get : σ → τ) (set : σ → τ → σ) (m : Procedure ε τ α) :
    Procedure ε σ α :=
  fun s => ((m.run (get s)).1, set s (m.run (get s)).2)

@[simp] theorem Procedure.read_run (f : σ → Except ε α) (s : σ) :
    (Procedure.read f).run s = (f s, s) := rfl

@[simp] theorem Procedure.lift_run (x : Except ε α) (s : σ) :
    (Procedure.lift x).run s = (x, s) := rfl

theorem Procedure.bind_run (m : Procedure ε σ α) (f : α → Procedure ε σ β) (s : σ) :
    (m >>= f).run s = match m.run s with
      | (.ok a, s') => (f a).run s'
      | (.error e, s') => (.error e, s') := by
  show ((m >>= f : ExceptT ε (StateM σ) β) : σ → Except ε β × σ) s = _
  simp only [bind, ExceptT.bind, ExceptT.mk, StateT.bind, ExceptT.run, ExceptT.bindCont]
  rcases m s with ⟨r, s'⟩
  cases r <;> rfl

theorem Procedure.bind_run_ok {m : Procedure ε σ α} {s s' : σ} {a : α} (h : m.run s = (.ok a, s'))
    (f : α → Procedure ε σ β) : (m >>= f).run s = (f a).run s' := by
  rw [Procedure.bind_run, h]

theorem Procedure.read_bind_run (f : σ → Except ε α) (g : α → Procedure ε σ β) (s : σ) :
    (Procedure.read f >>= g).run s = match f s with
      | .ok a => (g a).run s
      | .error e => (.error e, s) := by
  rw [Procedure.bind_run, Procedure.read_run]
  cases f s <;> rfl

theorem Procedure.ensure_bind_run (c : Prop) [Decidable c] (e : ε) (f : Unit → Procedure ε σ β)
    (s : σ) :
    (Procedure.lift (ensure c e) >>= f).run s = if c then (f ()).run s else (.error e, s) := by
  rw [Procedure.bind_run, Procedure.lift_run, ensure]
  by_cases h : c
  · rw [if_pos h, if_pos h]
  · rw [if_neg h, if_neg h]

theorem Procedure.adapt_run {ε' : Type} (f : ε → ε') (m : Procedure ε σ α) (s : σ) :
    (ExceptT.adapt f m : Procedure ε' σ α).run s = ((m.run s).1.mapError f, (m.run s).2) := rfl

theorem Procedure.zoom_bind_run {τ : Type} (get : σ → τ) (set : σ → τ → σ) (m : Procedure ε τ α)
    (f : α → Procedure ε σ β) (s : σ) :
    (Procedure.zoom get set m >>= f).run s = match m.run (get s) with
      | (.ok a, t) => (f a).run (set s t)
      | (.error e, t) => (.error e, set s t) := by
  rw [Procedure.bind_run]
  show (match ((m.run (get s)).1, set s (m.run (get s)).2) with
    | (.ok a, s') => (f a).run s'
    | (.error e, s') => (.error e, s')) = _
  rcases m.run (get s) with ⟨r, t⟩
  cases r <;> rfl

end Procedures

/-! ## Interactions -/

/-- A program that asks questions of type `Q` and goes on with the answers of type `A`. -/
inductive Interaction (Q A α : Type) where
  | done (a : α)
  | ask (q : Q) (next : A → Interaction Q A α)

section Interactions

variable {Q A α β : Type}

/-- The meaning of an interaction under a handler, in any monad. -/
def Interaction.run {m : Type → Type} [Monad m] (handler : Q → m A) : Interaction Q A α → m α
  | .done a => pure a
  | .ask q next => handler q >>= fun a => (next a).run handler

/-- Go on with another interaction. -/
def Interaction.bind : Interaction Q A α → (α → Interaction Q A β) → Interaction Q A β
  | .done a, f => f a
  | .ask q next, f => .ask q fun a => (next a).bind f

instance : Monad (Interaction Q A) where
  pure := .done
  bind := .bind

instance Interaction.lawfulMonad : LawfulMonad (Interaction Q A) := by
  refine LawfulMonad.mk' _ (fun program => ?_) (fun a f => rfl) fun program f g => ?_
  · induction program with
    | done a => rfl
    | ask q next ih => exact congrArg (ask q) (funext ih)
  · induction program with
    | done a => rfl
    | ask q next ih => exact congrArg (ask q) (funext ih)

theorem Interaction.run_bind {m : Type → Type} [Monad m] [LawfulMonad m] (handler : Q → m A)
    (program : Interaction Q A α) (f : α → Interaction Q A β) :
    (program >>= f).run handler = program.run handler >>= fun a => (f a).run handler := by
  induction program with
  | done a =>
    show (f a).run handler = pure a >>= fun a => (f a).run handler
    rw [pure_bind]
  | ask q next ih =>
    show (handler q >>= fun a => (next a >>= f).run handler) = (handler q >>= _) >>= _
    rw [bind_assoc]
    exact congrArg _ (funext ih)

/-- Sequencing on a state that is passed on. -/
theorem Interaction.run_bind_apply {σ : Type} (handler : Q → StateM σ A)
    (program : Interaction Q A α) (f : α → Interaction Q A β) (s : σ) :
    (program >>= f).run handler s =
      (f (program.run handler s).1).run handler (program.run handler s).2 := by
  rw [Interaction.run_bind]
  rfl

/-- Ask one question and return the answer. -/
def Interaction.query (q : Q) : Interaction Q A A := .ask q .done

/-- All questions that an interaction may ask satisfy `p`. -/
def Interaction.Asks (p : Q → Prop) : Interaction Q A α → Prop
  | .done _ => True
  | .ask q next => p q ∧ ∀ a, (next a).Asks p

theorem Interaction.Asks.bind {p : Q → Prop} {m : Interaction Q A α} (hm : m.Asks p)
    {f : α → Interaction Q A β} (hf : ∀ a, (f a).Asks p) : (m >>= f).Asks p := by
  induction m with
  | done a => exact hf a
  | ask q next ih => exact ⟨hm.1, fun a => ih a (hm.2 a)⟩

theorem Interaction.Asks.foldlM {p : Q → Prop} {f : β → α → Interaction Q A β}
    (hf : ∀ b a, (f b a).Asks p) (l : List α) (b : β) : (l.foldlM f b).Asks p := by
  induction l generalizing b with
  | nil => exact trivial
  | cons a l ih =>
    rw [List.foldlM_cons]
    exact (hf b a).bind ih

end Interactions

/-! ## Simulations -/

section Simulations

variable {Q A ε σ τ α β : Type} {R : σ → τ → Prop}

/-- **Simulation**: related states give the same result and related states. -/
def Simulates (R : σ → τ → Prop) (m : Procedure ε σ α) (n : Procedure ε τ α) : Prop :=
  ∀ s t, R s t → (m.run s).1 = (n.run t).1 ∧ R (m.run s).2 (n.run t).2

theorem simulates_pure (a : α) :
    Simulates R (pure a : Procedure ε σ α) (pure a : Procedure ε τ α) :=
  fun _ _ h => ⟨rfl, h⟩

theorem simulates_lift (x : Except ε α) :
    Simulates R (Procedure.lift x : Procedure ε σ α) (Procedure.lift x : Procedure ε τ α) :=
  fun _ _ h => ⟨rfl, h⟩

theorem simulates_read {f : σ → Except ε α} {g : τ → Except ε α}
    (h : ∀ s t, R s t → f s = g t) : Simulates R (Procedure.read f) (Procedure.read g) :=
  fun s t hr => ⟨h s t hr, hr⟩

/-- Simulation goes through sequencing. -/
theorem Simulates.bind {m : Procedure ε σ α} {n : Procedure ε τ α} (h : Simulates R m n)
    {f : α → Procedure ε σ β} {g : α → Procedure ε τ β} (hfg : ∀ a, Simulates R (f a) (g a)) :
    Simulates R (m >>= f) (n >>= g) := by
  intro s t hr
  obtain ⟨hresult, hstate⟩ := h s t hr
  rw [Procedure.bind_run, Procedure.bind_run]
  rcases hm : m.run s with ⟨r, s'⟩
  rcases hn : n.run t with ⟨r', t'⟩
  rw [hm, hn] at hresult hstate
  dsimp only at hresult hstate
  subst hresult
  cases r with
  | error e => exact ⟨rfl, hstate⟩
  | ok a => exact hfg a s' t' hstate

/-- **Handlers that simulate one another** give the same meaning to every interaction. -/
theorem Simulates.run {handler : Q → Procedure ε σ A} {handler' : Q → Procedure ε τ A}
    (h : ∀ q, Simulates R (handler q) (handler' q)) (program : Interaction Q A α) :
    Simulates R (program.run handler) (program.run handler') := by
  induction program with
  | done a => exact simulates_pure a
  | ask q next ih => exact (h q).bind ih

end Simulations
