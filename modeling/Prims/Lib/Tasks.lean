import Mathlib.Logic.Function.Basic
import Prims.Lib.Simulation

/-!
# Tasks on a shared state

Any number of tasks run interactions on one state. A question is answered at once, and between two
questions of a task all others may go on. A task is judged alone: what it asks and what it returns
must be right as long as what it is told is. If the handler keeps an invariant of the state and
gives right answers to right questions, everything stays right in every interleaving.

## Main definitions

* `Interaction.Keeps asks told returns`: the questions and the result of a task that is told the
  truth
* `Tasks`, `Tasks.spawn`, `Tasks.advance`: tasks and their state
* `Tasks.Sound`: the invariant of the tasks

## Main results

* `Interaction.Keeps.bind`, `Interaction.Keeps.foldlM`: the rules for programs
* `Tasks.Sound.spawn`, `Tasks.Sound.advance`: a new task and the next step of any task keep the
  invariant
-/

/-! ## One task -/

section Keeps

variable {Q A α β : Type} {asks : Q → Prop} {told : Q → A → Prop}

/-- **A task that keeps its word**: every question satisfies `asks` and the result satisfies
`returns`, as long as the answers satisfy `told`. -/
def Interaction.Keeps (asks : Q → Prop) (told : Q → A → Prop) (returns : α → Prop) :
    Interaction Q A α → Prop
  | .done a => returns a
  | .ask q next => asks q ∧ ∀ a, told q a → (next a).Keeps asks told returns

theorem Interaction.Keeps.bind {p : α → Prop} {returns : β → Prop} {m : Interaction Q A α}
    (hm : m.Keeps asks told p) {f : α → Interaction Q A β}
    (hf : ∀ a, p a → (f a).Keeps asks told returns) : (m >>= f).Keeps asks told returns := by
  induction m with
  | done a => exact hf a hm
  | ask q next ih => exact ⟨hm.1, fun a ha => ih a (hm.2 a ha)⟩

theorem Interaction.Keeps.query {q : Q} (h : asks q) :
    (Interaction.query q : Interaction Q A A).Keeps asks told (told q) :=
  ⟨h, fun _ ha => ha⟩

/-- A loop keeps its word when every round of it does. -/
theorem Interaction.Keeps.foldlM {p : β → Prop} {f : β → α → Interaction Q A β}
    (hf : ∀ b a, p b → (f b a).Keeps asks told p) (l : List α) {b : β} (hb : p b) :
    (l.foldlM f b).Keeps asks told p := by
  induction l generalizing b with
  | nil => exact hb
  | cons a l ih =>
    rw [List.foldlM_cons]
    exact (hf b a hb).bind fun _ => ih

end Keeps

/-! ## Many tasks -/

/-- Tasks named by `κ`: their state, what those that run still have to do, and what the others
returned, in order. -/
structure Tasks (κ Q A α σ : Type) where
  state : σ
  running : κ → Option (Interaction Q A α) := fun _ => none
  returned : List α := []

namespace Tasks

variable {κ Q A α σ : Type} [DecidableEq κ]

/-- Start a task, unless one of that name is running. -/
def spawn (s : Tasks κ Q A α σ) (task : κ) (program : Interaction Q A α) : Tasks κ Q A α σ :=
  match s.running task with
  | some _ => s
  | none => { s with running := Function.update s.running task (some program) }

/-- The next question of a task is answered, or the task returns. -/
def advance (handler : Q → StateM σ A) (s : Tasks κ Q A α σ) (task : κ) : Tasks κ Q A α σ :=
  match s.running task with
  | none => s
  | some (.done a) =>
    { s with
      running := Function.update s.running task none
      returned := s.returned ++ [a] }
  | some (.ask q next) =>
    let (a, state) := handler q s.state
    { s with
      state
      running := Function.update s.running task (some (next a)) }

/-- **The invariant of the tasks**: the state satisfies `inv`, every task keeps its word, and what
was returned satisfies `returns`. -/
structure Sound (inv : σ → Prop) (asks : Q → Prop) (told : Q → A → Prop) (returns : α → Prop)
    (s : Tasks κ Q A α σ) : Prop where
  state : inv s.state
  running : ∀ task program, s.running task = some program → program.Keeps asks told returns
  returned : ∀ a ∈ s.returned, returns a

variable {inv : σ → Prop} {asks : Q → Prop} {told : Q → A → Prop} {returns : α → Prop}
  {s : Tasks κ Q A α σ}

/-- One task goes on to another program. -/
theorem Sound.running_update (h : s.Sound inv asks told returns) (task : κ)
    {program : Option (Interaction Q A α)}
    (hprogram : ∀ p, program = some p → p.Keeps asks told returns) (task' : κ)
    (p : Interaction Q A α) (hp : Function.update s.running task program task' = some p) :
    p.Keeps asks told returns := by
  by_cases htask : task' = task
  · rw [htask, Function.update_self] at hp
    exact hprogram p hp
  · rw [Function.update_of_ne htask] at hp
    exact h.running task' p hp

/-- A new task that keeps its word. -/
theorem Sound.spawn (h : s.Sound inv asks told returns) (task : κ)
    {program : Interaction Q A α} (hprogram : program.Keeps asks told returns) :
    (s.spawn task program).Sound inv asks told returns := by
  unfold Tasks.spawn
  split
  · exact h
  · refine ⟨h.state, h.running_update task fun p hp => ?_, h.returned⟩
    cases hp
    exact hprogram

/-- **The next step of any task**, when the handler keeps the state and gives right answers. -/
theorem Sound.advance (h : s.Sound inv asks told returns) {handler : Q → StateM σ A}
    (hhandler : ∀ q state, asks q → inv state →
      inv (handler q state).2 ∧ told q (handler q state).1) (task : κ) :
    (s.advance handler task).Sound inv asks told returns := by
  unfold Tasks.advance
  split
  · exact h
  · next a hrunning =>
    refine ⟨h.state, h.running_update task nofun, fun b hb => ?_⟩
    rcases List.mem_append.mp hb with hb | hb
    · exact h.returned b hb
    · rw [List.mem_singleton] at hb
      exact hb ▸ h.running task _ hrunning
  · next q next hrunning =>
    obtain ⟨hasks, hnext⟩ := h.running task _ hrunning
    obtain ⟨hstate, htold⟩ := hhandler q s.state hasks h.state
    refine ⟨hstate, h.running_update task fun p hp => ?_, h.returned⟩
    cases hp
    exact hnext _ htold

end Tasks
