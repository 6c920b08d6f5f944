import Mathlib.Data.List.Infix
import Mathlib.Logic.Function.Basic
import Prims.Lib.Bytes
import Prims.Lib.Postcondition

/-!
# Files on a disk that fails

A directory maps the names of its files to their bytes. To write a file is to create it, which
empties it, and to write its bytes, so a disk that fails in between leaves a part of them. A writer
that buffers bytes learns of a failure only when it flushes its buffer; one that drops the buffer
instead does not learn of it at all. A program that is killed after the last byte has written the
file, and does not say so.

## Main definitions

* `Files`: the files of a directory
* `WriteOutcome`, `WriteOutcome.leaves`: what becomes of a file that is written
* `writeFile`: write a file

## Main results

* `WriteOutcome.leaves_eq`: the file is as it was, or it has a part of its bytes
* `Procedure.Ends.writeFile_bind`: the rule for a write
-/

/-- A start of a list is the list, or it lacks the last element at least. -/
theorem prefix_eq_or_dropLast {α : Type} {part l : List α} (h : part <+: l) :
    part = l ∨ part <+: l.dropLast := by
  rcases l.eq_nil_or_concat with rfl | ⟨init, last, rfl⟩
  · exact .inl (List.prefix_nil.mp h)
  · rw [List.concat_eq_append] at h ⊢
    rw [List.dropLast_concat]
    exact List.prefix_concat_iff.mp h

/-- The files of a directory. -/
abbrev Files (κ : Type) := κ → Option Bytes

/-- What becomes of a file that is written. -/
inductive WriteOutcome where
  /-- The file cannot be created. -/
  | refused
  /-- Writing stops before the last byte. -/
  | stopped (count : ℕ)
  /-- The last bytes are lost in a buffer, and nothing is reported. -/
  | lost (count : ℕ)
  /-- All bytes arrive, and then the program is killed. -/
  | killed
  | whole
  deriving DecidableEq

namespace WriteOutcome

/-- What a writer is told that flushes its buffer. -/
def flushed : WriteOutcome → WriteOutcome
  | .lost count => .stopped count
  | outcome => outcome

/-- What the file holds afterwards. -/
def leaves (outcome : WriteOutcome) (bytes : Bytes) (before : Option Bytes) : Option Bytes :=
  match outcome with
  | .refused => before
  | .stopped count | .lost count => some (bytes.dropLast.take count)
  | .killed | .whole => some bytes

/-- Nothing is reported. -/
def Silent : WriteOutcome → Prop
  | .lost _ | .whole => True
  | _ => False

instance decidableSilent (outcome : WriteOutcome) : Decidable outcome.Silent := by
  cases outcome <;> unfold Silent <;> infer_instance

/-- A writer is told exactly when all bytes arrive. -/
def Honest : WriteOutcome → Prop
  | .lost _ | .killed => False
  | _ => True

/-- **The file is as it was, or it has a part of its bytes.** -/
theorem leaves_eq (outcome : WriteOutcome) (bytes : Bytes) (before : Option Bytes) :
    outcome = .refused ∧ outcome.leaves bytes before = before ∨
      ∃ part, part <+: bytes ∧ outcome.leaves bytes before = some part := by
  have hpart : ∀ count, bytes.dropLast.take count <+: bytes := fun count =>
    (List.take_prefix count _).trans (List.dropLast_prefix bytes)
  cases outcome with
  | refused => exact .inl ⟨rfl, rfl⟩
  | stopped count => exact .inr ⟨_, hpart count, rfl⟩
  | lost count => exact .inr ⟨_, hpart count, rfl⟩
  | killed => exact .inr ⟨bytes, List.prefix_rfl, rfl⟩
  | whole => exact .inr ⟨bytes, List.prefix_rfl, rfl⟩

/-- A flush that is not answered by an error: all bytes have arrived. -/
theorem leaves_of_silent_flushed {outcome : WriteOutcome} (h : outcome.flushed.Silent)
    (bytes : Bytes) (before : Option Bytes) :
    outcome.flushed.leaves bytes before = some bytes := by
  cases outcome with
  | whole => rfl
  | _ => exact h.elim

/-- An honest disk that reports nothing has all bytes. -/
theorem Honest.leaves_of_silent {outcome : WriteOutcome} (hhonest : outcome.Honest)
    (h : outcome.Silent) (bytes : Bytes) (before : Option Bytes) :
    outcome.leaves bytes before = some bytes := by
  cases outcome with
  | whole => rfl
  | lost count => exact hhonest.elim
  | _ => exact h.elim

/-- An honest disk that reports a failure leaves the file as it was, or without its last byte. -/
theorem Honest.leaves_of_not_silent {outcome : WriteOutcome} (hhonest : outcome.Honest)
    (h : ¬ outcome.Silent) (bytes : Bytes) (before : Option Bytes) :
    outcome.leaves bytes before = before ∨
      ∃ part, part <+: bytes.dropLast ∧ outcome.leaves bytes before = some part := by
  cases outcome with
  | refused => exact .inl rfl
  | stopped count => exact .inr ⟨_, List.take_prefix count _, rfl⟩
  | lost count => exact absurd trivial h
  | killed => exact hhonest.elim
  | whole => exact absurd trivial h

end WriteOutcome

section Write

variable {κ ε α : Type} [DecidableEq κ]

/-- Write a file. -/
def writeFile (outcome : WriteOutcome) (e : ε) (file : κ) (bytes : Bytes) :
    Procedure ε (Files κ) Unit :=
  fun files => (if outcome.Silent then .ok () else .error e,
    Function.update files file (outcome.leaves bytes (files file)))

/-- **The rule for a write**: it goes on when nothing is reported. -/
theorem Procedure.Ends.writeFile_bind {outcome : WriteOutcome} {e : ε} {file : κ} {bytes : Bytes}
    {f : Unit → Procedure ε (Files κ) α} {files : Files κ} {returns : α → Files κ → Prop}
    {fails : ε → Files κ → Prop}
    (hfails : ¬ outcome.Silent →
      fails e (Function.update files file (outcome.leaves bytes (files file))))
    (hrest : outcome.Silent →
      (f ()).Ends (Function.update files file (outcome.leaves bytes (files file))) returns fails) :
    (writeFile outcome e file bytes >>= f).Ends files returns fails := by
  apply Procedure.Ends.bind
  set after := Function.update files file (outcome.leaves bytes (files file))
  by_cases h : outcome.Silent
  · have hrun : (writeFile outcome e file bytes).run files = (.ok (), after) :=
      Prod.ext (if_pos h) rfl
    rw [Procedure.Ends, hrun]
    exact hrest h
  · have hrun : (writeFile outcome e file bytes).run files = (.error e, after) :=
      Prod.ext (if_neg h) rfl
    rw [Procedure.Ends, hrun]
    exact hfails h

end Write
