import Prims.Lib.Bytes

/-!
# Constraint systems over bytes

A circuit allocates public and private byte variables and emits equations between the values it
computes from them. The hash gadget is a function from its input bytes to its output bytes, and
the addition gadget adds modulo `2 ^ 64`; what a system constrains is then the equations alone.
An assignment gives every variable a byte, and a prover may choose any assignment that satisfies
the equations.

## Main definitions

* `BytesVar`, `UInt64Var`: byte strings and 64-bit words over the variables
* `ConstraintSystem`, `Synthesis`: the system built so far, and the steps that extend it
* `Assignment.Satisfies`: an assignment that solves the equations

## Main results

* `value_wrappingAddMany`: the addition gadget computes the sum modulo `2 ^ 64`
-/

namespace Circuit

/-- A byte string over the variables of a system. -/
inductive BytesVar where
  | constant (bytes : Bytes)
  /-- Public variables, from the given one on. -/
  | input (start length : ℕ)
  /-- Private variables, from the given one on. -/
  | witness (start length : ℕ)
  | append (left right : BytesVar)
  /-- The output bytes of the hash gadget. -/
  | hash (message : BytesVar)
  deriving DecidableEq

/-- A 64-bit word over the variables of a system. -/
inductive UInt64Var where
  /-- Eight bytes, least significant first. -/
  | ofBytes (word : BytesVar)
  | wrappingAdd (left right : UInt64Var)
  deriving DecidableEq

/-- The addition gadget on any number of operands. -/
def wrappingAddMany (operands : List UInt64Var) : UInt64Var :=
  operands.foldr .wrappingAdd (.ofBytes (.constant (leBytes 8 0)))

/-- An equation that a circuit enforces. -/
inductive Constraint where
  | equalBytes (left right : BytesVar)
  | equalUInt64 (left right : UInt64Var)
  deriving DecidableEq

/-- The variables that were allocated, with the values given to them, and the equations. -/
structure ConstraintSystem where
  inputs : Bytes := []
  witnesses : Bytes := []
  constraints : List Constraint := []
  deriving DecidableEq

/-! ## Synthesis -/

/-- A step of synthesis extends the system. -/
abbrev Synthesis := StateM ConstraintSystem

/-- Allocate public variables. -/
def newInput (bytes : Bytes) : Synthesis BytesVar := do
  let cs ← get
  set { cs with inputs := cs.inputs ++ bytes }
  return .input cs.inputs.length bytes.length

/-- Allocate private variables. -/
def newWitness (bytes : Bytes) : Synthesis BytesVar := do
  let cs ← get
  set { cs with witnesses := cs.witnesses ++ bytes }
  return .witness cs.witnesses.length bytes.length

/-- Add an equation. -/
def enforce (constraint : Constraint) : Synthesis Unit :=
  modify fun cs => { cs with constraints := cs.constraints ++ [constraint] }

/-! ## Assignments -/

/-- A byte for every variable. -/
structure Assignment where
  input : ℕ → UInt8
  witness : ℕ → UInt8

/-- The values that were given to the variables when they were allocated. -/
def ConstraintSystem.assignment (cs : ConstraintSystem) : Assignment where
  input i := cs.inputs.getD i 0
  witness i := cs.witnesses.getD i 0

section Semantics

variable (hash : Bytes → Bytes32) (a : Assignment)

def BytesVar.eval : BytesVar → Bytes
  | .constant bytes => bytes
  | .input start length => (List.range length).map fun i => a.input (start + i)
  | .witness start length => (List.range length).map fun i => a.witness (start + i)
  | .append left right => left.eval ++ right.eval
  | .hash message => (hash message.eval).toList

def UInt64Var.eval : UInt64Var → UInt64
  | .ofBytes word => UInt64.ofNat (leNat (word.eval hash a))
  | .wrappingAdd left right => left.eval + right.eval

/-- The equation holds of the assignment. -/
def Constraint.Holds : Constraint → Prop
  | .equalBytes left right => left.eval hash a = right.eval hash a
  | .equalUInt64 left right => left.eval hash a = right.eval hash a

instance (c : Constraint) : Decidable (c.Holds hash a) :=
  match c with
  | .equalBytes left right => inferInstanceAs (Decidable (left.eval hash a = right.eval hash a))
  | .equalUInt64 left right => inferInstanceAs (Decidable (left.eval hash a = right.eval hash a))

/-- The assignment solves every equation of the system. -/
def Assignment.Satisfies (cs : ConstraintSystem) : Prop :=
  ∀ c ∈ cs.constraints, c.Holds hash a

instance (cs : ConstraintSystem) : Decidable (a.Satisfies hash cs) :=
  inferInstanceAs (Decidable (∀ c ∈ cs.constraints, c.Holds hash a))

/-- The number that a word has under the assignment. -/
def UInt64Var.value (x : UInt64Var) : ℕ := (x.eval hash a).toNat

variable {hash a}

/-- **The addition gadget** computes the sum modulo `2 ^ 64`. -/
theorem value_wrappingAddMany (operands : List UInt64Var) :
    (wrappingAddMany operands).value hash a =
      (operands.map fun x => x.value hash a).sum % 2 ^ 64 := by
  induction operands with
  | nil => rfl
  | cons x operands ih =>
    have hcons : wrappingAddMany (x :: operands) = .wrappingAdd x (wrappingAddMany operands) := rfl
    rw [hcons, UInt64Var.value, UInt64Var.eval, UInt64.toNat_add, List.map_cons, List.sum_cons]
    unfold UInt64Var.value at ih
    rw [ih, Nat.add_mod_mod]
    rfl

end Semantics

end Circuit
