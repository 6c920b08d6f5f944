import Prims.Lib.Circuit
import Prims.Privacy.Transfer

/-!
# The circuit of an anonymous transfer

`ZkTransferCircuit::generate_constraints`: the circuit allocates the public inputs and the witness
of a transfer and enforces the commitment and the Merkle path of each input, the commitment of
each output, and the balance. The prover first runs the native verification, but that is not part
of the system: who makes a proof with other code is held to the equations only. The native
verification adds the values with overflow checks and the circuit adds them modulo `2 ^ 64`, so
the equations let the two sides of the balance differ by a multiple of `2 ^ 64`.

## Main definitions

* `ZkTransferCircuit.synthesize`, `ZkTransferCircuit.generateConstraints`: the circuit
* `TransferVars`: the words that enter the balance

## Main results

* `circuit_conserves_iff`: a satisfying assignment conserves value if and only if both sides of
  the balance overflow equally often
-/

namespace Prims

open Bincode Circuit

structure ZkTransferCircuit where
  publicInputs : ZkTransferPublicInputs
  witness : ZkTransferWitness

/-- The errors of synthesis that the circuit returns itself. -/
inductive SynthesisError where
  | unsatisfiable
  deriving DecidableEq, Repr

namespace ZkTransferCircuit

/-! ## Gadgets -/

def deriveRecipientPublicKeyVar (spendingPrivateKey : BytesVar) : BytesVar :=
  .hash (.append (.constant (utf8 "prims-note-owner")) spendingPrivateKey)

def noteCommitmentVar (value recipientPublicKey blinding : BytesVar) : BytesVar :=
  .hash (.append (.append value recipientPublicKey) blinding)

def merkleLeafHashVar (commitment : BytesVar) : BytesVar :=
  .hash (.append (.constant (utf8 "prims-note-merkle-leaf")) commitment)

def merkleInternalHashVar (left right : BytesVar) : BytesVar :=
  .hash (.append (.append (.constant (utf8 "prims-note-merkle-node")) left) right)

/-! ## Synthesis -/

/-- The path of an input. The order of the two children follows the index of the leaf while the
circuit is built; the index is not a variable. -/
def synthesizePath (currentHash : BytesVar) (currentIndex : ℕ) :
    List Bytes32 → Synthesis BytesVar
  | [] => return currentHash
  | sibling :: siblings => do
    let siblingVar ← newWitness sibling.toList
    let next := if currentIndex % 2 = 0 then merkleInternalHashVar currentHash siblingVar
      else merkleInternalHashVar siblingVar currentHash
    synthesizePath next (currentIndex / 2) siblings

/-- The variables and the equations of an input; the result is its value. -/
def synthesizeInput (merkleRootVar : BytesVar) (input : ZkNoteInputWitness) :
    Synthesis UInt64Var := do
  let valueVar ← newWitness (leBytes 8 input.value.toNat)
  let spendingPrivateKeyVar ← newWitness input.spendingPrivateKey.toList
  let blindingVar ← newWitness input.blinding.toList
  let proofLeafVar ← newWitness input.merkleProof.leaf.toList
  let derivedRecipientPublicKeyVar := deriveRecipientPublicKeyVar spendingPrivateKeyVar
  let expectedCommitmentVar :=
    noteCommitmentVar valueVar derivedRecipientPublicKeyVar blindingVar
  enforce (.equalBytes expectedCommitmentVar proofLeafVar)
  let currentHash ← synthesizePath (merkleLeafHashVar proofLeafVar) input.merkleProof.leafIndex
    input.merkleProof.siblings
  enforce (.equalBytes currentHash merkleRootVar)
  return .ofBytes valueVar

/-- The variables and the equations of an output and its public commitment; the result is its
value. -/
def synthesizeOutput (output : ZkNoteOutputWitness) (commitment : Bytes32) :
    Synthesis UInt64Var := do
  let valueVar ← newWitness (leBytes 8 output.value.toNat)
  let recipientPublicKeyVar ← newWitness output.recipientPublicKey.toList
  let blindingVar ← newWitness output.blinding.toList
  let expectedCommitmentVar := noteCommitmentVar valueVar recipientPublicKeyVar blindingVar
  let publicCommitmentVar ← newInput commitment.toList
  enforce (.equalBytes expectedCommitmentVar publicCommitmentVar)
  return .ofBytes valueVar

/-- The words that enter the balance. -/
structure TransferVars where
  inputs : List UInt64Var
  outputs : List UInt64Var
  fee : UInt64Var

/-- **The constraints of a transfer**: what `generate_constraints` does after its checks. There are
as many outputs as output commitments then. -/
def synthesize (circuit : ZkTransferCircuit) : Synthesis TransferVars := do
  let merkleRootVar ← newInput circuit.publicInputs.merkleRoot.toList
  let feeVar ← newInput (leBytes 8 circuit.publicInputs.fee.toNat)
  let totalInputValues ← circuit.witness.inputs.mapM (synthesizeInput merkleRootVar)
  let totalOutputValues ←
    (circuit.witness.outputs.zip circuit.publicInputs.outputCommitments).mapM fun
      (output, commitment) => synthesizeOutput output commitment
  let totalInputsVar := wrappingAddMany totalInputValues
  let totalOutputsVar := wrappingAddMany totalOutputValues
  let expectedInputsVar := wrappingAddMany [totalOutputsVar, .ofBytes feeVar]
  enforce (.equalUInt64 totalInputsVar expectedInputsVar)
  return ⟨totalInputValues, totalOutputValues, .ofBytes feeVar⟩

/-- The words of the balance. -/
def vars (circuit : ZkTransferCircuit) : TransferVars := (circuit.synthesize {}).1

/-- The system that is emitted. -/
def constraintSystem (circuit : ZkTransferCircuit) : ConstraintSystem := (circuit.synthesize {}).2

def generateConstraints (P : Primitives) (circuit : ZkTransferCircuit) :
    Except SynthesisError ConstraintSystem := do
  ensure (circuit.witness.inputs ≠ [] ∧ circuit.witness.outputs ≠ [] ∧
    circuit.witness.outputs.length = circuit.publicInputs.outputCommitments.length) .unsatisfiable
  match verifyZkTransferPublicInputs P circuit.publicInputs circuit.witness with
  | .error _ => .error .unsatisfiable
  | .ok () => .ok circuit.constraintSystem

end ZkTransferCircuit

open ZkTransferCircuit

/-- The circuit of a transfer that the native verification accepts is synthesized. -/
theorem generateConstraints_of_verify {P : Primitives} {circuit : ZkTransferCircuit}
    (h : verifyZkTransferPublicInputs P circuit.publicInputs circuit.witness = .ok ()) :
    generateConstraints P circuit = .ok circuit.constraintSystem := by
  have hvalid := verifyZkTransferPublicInputs_ok.mp h
  rw [generateConstraints, ensure_bind_eq_ok]
  refine ⟨⟨hvalid.inputs_ne_nil, hvalid.outputs_ne_nil, hvalid.length_eq⟩, ?_⟩
  rw [h]

/-! ## The balance -/

/-- The balance is one of the equations. -/
theorem balance_mem_constraints (circuit : ZkTransferCircuit) :
    .equalUInt64 (wrappingAddMany circuit.vars.inputs)
        (wrappingAddMany [wrappingAddMany circuit.vars.outputs, circuit.vars.fee]) ∈
      circuit.constraintSystem.constraints :=
  List.mem_append_right _ (List.mem_singleton_self _)

/-- Equal remainders leave the quotients to decide. -/
theorem eq_iff_div_eq_of_mod_eq {m n k : ℕ} (h : m % k = n % k) : m = n ↔ m / k = n / k := by
  constructor
  · rintro rfl
    rfl
  · intro hdiv
    rw [← Nat.div_add_mod m k, ← Nat.div_add_mod n k, h, hdiv]

/-- **When the circuit conserves value**: under an assignment that satisfies the constraints, the
inputs are worth the outputs and the fee together if and only if the two sides exceed 64 bits
equally often. -/
theorem circuit_conserves_iff (P : Primitives) (circuit : ZkTransferCircuit) (a : Assignment)
    (h : a.Satisfies P.sha256 circuit.constraintSystem) :
    let inputs := (circuit.vars.inputs.map fun x => x.value P.sha256 a).sum
    let outputs := (circuit.vars.outputs.map fun x => x.value P.sha256 a).sum
    let fee := circuit.vars.fee.value P.sha256 a
    inputs = outputs + fee ↔ inputs / 2 ^ 64 = (outputs + fee) / 2 ^ 64 := by
  intro inputs outputs fee
  apply eq_iff_div_eq_of_mod_eq
  have hbalance := congrArg UInt64.toNat (h _ (balance_mem_constraints circuit))
  change (wrappingAddMany circuit.vars.inputs).value P.sha256 a =
    (wrappingAddMany [wrappingAddMany circuit.vars.outputs, circuit.vars.fee]).value P.sha256 a
    at hbalance
  -- the gadget reduces each sum modulo `2 ^ 64`, the outputs before the fee is added
  rw [value_wrappingAddMany, value_wrappingAddMany, List.map_cons, List.map_singleton,
    List.sum_cons, List.sum_singleton, value_wrappingAddMany, Nat.mod_add_mod] at hbalance
  exact hbalance

/-! ## A balance that overflows -/

/-- A valid transfer: a note of value 7 is consumed, and a note of value 7 is created. -/
def sampleCircuit : ZkTransferCircuit where
  publicInputs := ⟨sampleRoot, 0, [sampleOutputCommitment]⟩
  witness := ⟨[sampleInput], [sampleOutput]⟩

/-- The same note is consumed, and a note of value `2 ^ 64 - 1` is created with a fee of 8. -/
def overflowCircuit : ZkTransferCircuit where
  publicInputs := ⟨sampleRoot, 8,
    [beVector 32 0x5b09f8c02055772398df836b3fd2826b94086a53a92e9f328a138757d02403f2]⟩
  witness := ⟨[sampleInput], [{ sampleOutput with value := 0xffffffffffffffff }]⟩

/-- What a prover assigns for the second transfer. -/
def overflowAssignment : Assignment := overflowCircuit.constraintSystem.assignment

theorem verify_sampleCircuit :
    verifyZkTransferPublicInputs noSignatures sampleCircuit.publicInputs sampleCircuit.witness =
      .ok () :=
  sampleTransfer_ok 1 0 (by decide) (by decide) (by decide)

theorem overflowAssignment_satisfies :
    overflowAssignment.Satisfies noSignatures.sha256 sampleCircuit.constraintSystem := by
  decide +kernel

/-- **The circuit creates value**: the constraints are those that a valid transfer emits, and an
assignment that satisfies every one of them turns a value of 7 into a value of `2 ^ 64 + 7`. -/
theorem overflowAssignment_creates_value :
    let inputs := (sampleCircuit.vars.inputs.map fun x =>
      x.value noSignatures.sha256 overflowAssignment).sum
    let outputs := (sampleCircuit.vars.outputs.map fun x =>
      x.value noSignatures.sha256 overflowAssignment).sum
    let fee := sampleCircuit.vars.fee.value noSignatures.sha256 overflowAssignment
    generateConstraints noSignatures sampleCircuit = .ok sampleCircuit.constraintSystem ∧
      overflowAssignment.Satisfies noSignatures.sha256 sampleCircuit.constraintSystem ∧
      inputs = 7 ∧ outputs + fee = 2 ^ 64 + 7 ∧ ¬ inputs = outputs + fee := by
  refine ⟨generateConstraints_of_verify verify_sampleCircuit, overflowAssignment_satisfies, ?_, ?_,
    ?_⟩
  all_goals decide +kernel

/-- The condition of the theorem tells the assignment apart: one side exceeds 64 bits and the other
does not. -/
theorem overflowAssignment_conserves_iff :
    let inputs := (sampleCircuit.vars.inputs.map fun x =>
      x.value noSignatures.sha256 overflowAssignment).sum
    let outputs := (sampleCircuit.vars.outputs.map fun x =>
      x.value noSignatures.sha256 overflowAssignment).sum
    let fee := sampleCircuit.vars.fee.value noSignatures.sha256 overflowAssignment
    inputs = outputs + fee ↔ inputs / 2 ^ 64 = (outputs + fee) / 2 ^ 64 :=
  circuit_conserves_iff noSignatures sampleCircuit overflowAssignment overflowAssignment_satisfies

end Prims
