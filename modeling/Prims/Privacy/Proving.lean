import Mathlib.Data.ZMod.Basic
import Prims.Lib.ProofSystem
import Prims.Privacy.Setup

/-!
# Anonymous transactions

An anonymous transaction has the public inputs of a transfer and the bytes of a proof. The prover
synthesizes the whole circuit, and the root, the fee and the commitments are among its variables.
The verifier allocates these alone, in a constraint system of its own, and reads their values. Both
must number the variables alike, or no proof verifies.

They do: the inputs of a transfer allocate no public variable, and each output allocates its
commitment. So a transfer that the native verification accepts has a proof, and the transaction made
of it verifies with the key of its system, through the bytes of the proof and back.

## Main definitions

* `zkTransferPublicInputsToFieldElements`: what the verifier is given
* `generateZkTransferProof`, `verifyZkTransferProof`: the two sides
* `AnonTransaction`: the transaction, its proof as bytes

## Main results

* `field_elements_agree`: the verifier numbers the public inputs as the circuit does
* `anonymous_transfer_verifies`: what is proved verifies
-/

namespace Prims

open Bincode Circuit

/-- The order of the scalar field of BLS12-381. -/
def scalarFieldOrder : ℕ := 0x73eda753299d7d483339d80809a1d80553bda402fffe5bfeffffffff00000001

instance factOneLtScalarFieldOrder : Fact (1 < scalarFieldOrder) := ⟨by decide⟩

/-- The scalar field of BLS12-381. -/
abbrev Fr := ZMod scalarFieldOrder

instance decidableEqFr : DecidableEq Fr := inferInstanceAs (DecidableEq (ZMod scalarFieldOrder))

/-! ## The two sides -/

inductive ZkTransferProofSystemError (ε : Type) where
  | publicInputsEncodingFailed
  | invalidWitness (error : ZkTransferError)
  | provingFailed (error : SynthesisError ⊕ ε)
  | verificationFailed (error : ε)

inductive AnonTransactionError (ε : Type) where
  | proofSerializationFailed (error : ε)
  | proofDeserializationFailed (error : ε)
  | verificationFailed (error : ZkTransferProofSystemError ε)

/-- The variables that the verifier allocates. -/
def allocatePublicInputs (publicInputs : ZkTransferPublicInputs) : Synthesis Unit := do
  let _ ← newInput publicInputs.merkleRoot.toList
  let _ ← newInput (leBytes 8 publicInputs.fee.toNat)
  let _ ← publicInputs.outputCommitments.mapM fun commitment => newInput commitment.toList
  return ()

/-- The values of the instance variables from the second on; the first is the constant one. -/
def zkTransferPublicInputsToFieldElements {ε : Type} (encoding : ByteEncoding Fr)
    (publicInputs : ZkTransferPublicInputs) :
    Except (ZkTransferProofSystemError ε) (List Fr) :=
  let cs := (allocatePublicInputs publicInputs {}).2
  let numInstanceVariables := 1 + 8 * cs.inputs.length
  (List.range' 1 (numInstanceVariables - 1)).mapM fun index =>
    ((1 :: cs.fieldElements encoding)[index]?).okOr .publicInputsEncodingFailed

section Proving

variable (P : Primitives) (G : ProofSystem Fr)

def generateZkTransferProof (provingKey : G.ProvingKey) (publicInputs : ZkTransferPublicInputs)
    (witness : ZkTransferWitness) :
    Procedure (ZkTransferProofSystemError G.Error) G.Rng G.Proof := do
  Procedure.lift ((verifyZkTransferPublicInputs P publicInputs witness).mapError .invalidWitness)
  -- the library synthesizes the circuit, and makes the proof of its system
  let cs ← Procedure.lift
    ((ZkTransferCircuit.generateConstraints P ⟨publicInputs, witness⟩).mapError
      fun e => .provingFailed (.inl e))
  ExceptT.adapt (fun e => .provingFailed (.inr e)) (G.createProof provingKey cs)

def verifyZkTransferProofWithPreparedKey (preparedVerifyingKey : G.PreparedVerifyingKey)
    (publicInputs : ZkTransferPublicInputs) (proof : G.Proof) :
    Except (ZkTransferProofSystemError G.Error) Bool := do
  let fieldElements ← zkTransferPublicInputsToFieldElements G.encoding publicInputs
  (G.verifyProof preparedVerifyingKey proof fieldElements).mapError .verificationFailed

def verifyZkTransferProof (verifyingKey : G.VerifyingKey) (publicInputs : ZkTransferPublicInputs)
    (proof : G.Proof) : Except (ZkTransferProofSystemError G.Error) Bool :=
  verifyZkTransferProofWithPreparedKey G (G.prepareVerifyingKey verifyingKey) publicInputs proof

end Proving

/-! ## The transaction -/

structure AnonTransaction where
  merkleRoot : Bytes32
  fee : UInt64
  outputCommitments : List Bytes32
  proof : Bytes
  deriving DecidableEq

namespace AnonTransaction

variable (G : ProofSystem Fr)

def new (publicInputs : ZkTransferPublicInputs) (proof : G.Proof) :
    Except (AnonTransactionError G.Error) AnonTransaction := do
  let proofBytes ← (G.serializeCompressed proof).mapError .proofSerializationFailed
  return ⟨publicInputs.merkleRoot, publicInputs.fee, publicInputs.outputCommitments, proofBytes⟩

def publicInputs (transaction : AnonTransaction) : ZkTransferPublicInputs :=
  ⟨transaction.merkleRoot, transaction.fee, transaction.outputCommitments⟩

def decodeProof (transaction : AnonTransaction) : Except (AnonTransactionError G.Error) G.Proof :=
  (G.deserializeCompressed transaction.proof).mapError .proofDeserializationFailed

def verify (transaction : AnonTransaction) (verifyingKey : G.VerifyingKey) :
    Except (AnonTransactionError G.Error) Bool := do
  let proof ← transaction.decodeProof G
  (verifyZkTransferProof G verifyingKey transaction.publicInputs proof).mapError
    .verificationFailed

def verifyWithPreparedKey (transaction : AnonTransaction)
    (preparedVerifyingKey : G.PreparedVerifyingKey) :
    Except (AnonTransactionError G.Error) Bool := do
  let proof ← transaction.decodeProof G
  (verifyZkTransferProofWithPreparedKey G preparedVerifyingKey transaction.publicInputs
    proof).mapError .verificationFailed

end AnonTransaction

/-! ## The public variables -/

/-- The public bytes of a transfer. -/
def ZkTransferPublicInputs.bytes (publicInputs : ZkTransferPublicInputs) : Bytes :=
  publicInputs.merkleRoot.toList ++ (leBytes 8 publicInputs.fee.toNat ++
    publicInputs.outputCommitments.flatMap fun commitment => commitment.toList)

theorem ZkTransferPublicInputs.length_bytes (publicInputs : ZkTransferPublicInputs) :
    publicInputs.bytes.length = 40 + 32 * publicInputs.outputCommitments.length := by
  have hcommitments : (publicInputs.outputCommitments.flatMap fun commitment =>
      commitment.toList).length = 32 * publicInputs.outputCommitments.length := by
    induction publicInputs.outputCommitments with
    | nil => rfl
    | cons commitment commitments ih =>
      rw [List.flatMap_cons, List.length_append, ih, commitment.toList_length, List.length_cons]
      omega
  rw [bytes, List.length_append, List.length_append, hcommitments, length_leBytes,
    publicInputs.merkleRoot.toList_length]
  omega

/-- Hashes in a row are read back. -/
theorem flatMap_toList_injective {l l' : List Bytes32}
    (h : l.flatMap (fun commitment => commitment.toList) =
      l'.flatMap fun commitment => commitment.toList) : l = l' := by
  induction l generalizing l' with
  | nil =>
    cases l' with
    | nil => rfl
    | cons c' l' =>
      have hlength := congrArg List.length h
      simp at hlength
      omega
  | cons c l ih =>
    cases l' with
    | nil =>
      have hlength := congrArg List.length h
      simp at hlength
    | cons c' l' =>
      rw [List.flatMap_cons, List.flatMap_cons] at h
      obtain ⟨hhead, htail⟩ := List.append_inj h (by simp)
      rw [List.Vector.toList_injective hhead, ih htail]

theorem ZkTransferPublicInputs.bytes_injective : Function.Injective bytes := by
  rintro ⟨root, fee, commitments⟩ ⟨root', fee', commitments'⟩ h
  obtain ⟨hroot, h⟩ := List.append_inj h (by simp)
  obtain ⟨hfee, hcommitments⟩ := List.append_inj h (by simp)
  rw [ZkTransferPublicInputs.mk.injEq]
  refine ⟨List.Vector.toList_injective hroot, ?_, flatMap_toList_injective hcommitments⟩
  exact UInt64.toNat_inj.mp ((leBytes_inj fee.toNat_lt fee'.toNat_lt).mp hfee)

theorem publishes_allocatePublicInputs (publicInputs : ZkTransferPublicInputs) :
    Publishes (allocatePublicInputs publicInputs) publicInputs.bytes := by
  refine (Publishes.newInput _).bind fun _ => ?_
  refine (Publishes.newInput _).bind fun _ => ?_
  refine ((Publishes.mapM _ fun _ _ => .newInput _).bind fun _ => .pure _).congr ?_
  exact List.append_nil _

namespace ZkTransferCircuit

theorem publishes_synthesizePath (current : BytesVar) (index : ℕ) (siblings : List Bytes32) :
    Publishes (synthesizePath current index siblings) [] := by
  induction siblings generalizing current index with
  | nil => exact .pure _
  | cons sibling siblings ih => exact (Publishes.newWitness _).silent_bind fun _ => ih _ _

/-- An input publishes nothing. -/
theorem publishes_synthesizeInput (rootVar : BytesVar) (input : ZkNoteInputWitness) :
    Publishes (synthesizeInput rootVar input) [] := by
  refine (Publishes.newWitness _).silent_bind fun value => ?_
  refine (Publishes.newWitness _).silent_bind fun key => ?_
  refine (Publishes.newWitness _).silent_bind fun blinding => ?_
  refine (Publishes.newWitness _).silent_bind fun leaf => ?_
  refine (Publishes.enforce _).silent_bind fun _ => ?_
  refine (publishes_synthesizePath _ _ _).silent_bind fun _ => ?_
  exact (Publishes.enforce _).silent_bind fun _ => .pure _

/-- An output publishes its commitment. -/
theorem publishes_synthesizeOutput (output : ZkNoteOutputWitness) (commitment : Bytes32) :
    Publishes (synthesizeOutput output commitment) commitment.toList := by
  refine (Publishes.newWitness _).silent_bind fun value => ?_
  refine (Publishes.newWitness _).silent_bind fun key => ?_
  refine (Publishes.newWitness _).silent_bind fun blinding => ?_
  refine ((Publishes.newInput _).bind fun _ => ?_).congr (List.append_nil _)
  exact (Publishes.enforce _).silent_bind fun _ => .pure _

/-- **The circuit publishes the public inputs**, when there are as many outputs as commitments. -/
theorem publishes_synthesize {circuit : ZkTransferCircuit}
    (hlen : circuit.witness.outputs.length = circuit.publicInputs.outputCommitments.length) :
    Publishes circuit.synthesize circuit.publicInputs.bytes := by
  have houtputs : (circuit.witness.outputs.zip circuit.publicInputs.outputCommitments).flatMap
      (fun entry => entry.2.toList) =
        circuit.publicInputs.outputCommitments.flatMap fun commitment => commitment.toList := by
    conv_rhs => rw [← List.map_snd_zip hlen.ge, List.flatMap_map]
  have hinputs : circuit.witness.inputs.flatMap (fun _ => ([] : Bytes)) = [] := by simp
  refine (Publishes.newInput _).bind fun root => (Publishes.newInput _).bind fun fee => ?_
  rw [← houtputs]
  have hsilent := Publishes.mapM circuit.witness.inputs fun input _ =>
    publishes_synthesizeInput root input
  refine (hsilent.congr hinputs).silent_bind fun inputs => ?_
  refine ((Publishes.mapM _ fun entry _ =>
    publishes_synthesizeOutput entry.1 entry.2).bind fun outputs => ?_).congr (List.append_nil _)
  exact (Publishes.enforce _).silent_bind fun _ => .pure _

end ZkTransferCircuit

section Agreement

variable {P : Primitives}

/-- A system that is emitted is the one of the circuit, and the transfer is valid. -/
theorem generateConstraints_eq_ok {circuit : ZkTransferCircuit} {cs : ConstraintSystem}
    (h : ZkTransferCircuit.generateConstraints P circuit = .ok cs) :
    cs = circuit.constraintSystem ∧
      verifyZkTransferPublicInputs P circuit.publicInputs circuit.witness = .ok () := by
  obtain ⟨-, h⟩ := ensure_bind_eq_ok.mp h
  split at h
  · cases h
  · next hverify => exact ⟨(Except.ok.inj h).symm, hverify⟩

/-- The encoding does not fail: every variable that was allocated has its value. -/
theorem fieldElements_eq_ok {ε : Type} (encoding : ByteEncoding Fr)
    (publicInputs : ZkTransferPublicInputs) :
    zkTransferPublicInputsToFieldElements (ε := ε) encoding publicInputs =
      .ok (publicInputs.bytes.flatMap encoding.byteElements) := by
  have hinputs := (publishes_allocatePublicInputs publicInputs).inputs_eq
  set elements : List Fr := publicInputs.bytes.flatMap encoding.byteElements with helements
  have hlength : elements.length = 8 * publicInputs.bytes.length :=
    encoding.length_flatMap _
  have hvalues : (List.range' 1 elements.length).map (fun index => (1 :: elements).getD index 0) =
      elements := by
    apply List.ext_getElem
    · simp
    · intro i hi hi'
      simp [List.getElem?_cons, Nat.add_comm 1 i, hi']
  rw [zkTransferPublicInputsToFieldElements, ConstraintSystem.fieldElements, hinputs]
  rw [Nat.add_sub_cancel_left, ← hlength, ← helements]
  conv_rhs => rw [← hvalues]
  refine mapM_eq_ok_map fun index hindex => ?_
  have hlt : index < (1 :: elements).length := by
    rw [List.length_cons]
    have := List.mem_range'_1.mp hindex
    omega
  rw [List.getD_eq_getElem?_getD, List.getElem?_eq_getElem hlt]
  rfl

/-- **Both sides number the public variables alike.** The system that the circuit emits has the
values that the verifier is given, whatever its inputs, outputs and paths; these are 320 elements
and 256 for each output; and they determine the public inputs. This holds however the library lays
out the bits of a byte. -/
theorem field_elements_agree (P : Primitives) (encoding : ByteEncoding Fr) (ε : Type)
    (publicInputs : ZkTransferPublicInputs) :
    (∀ (witness : ZkTransferWitness) (cs : ConstraintSystem),
      ZkTransferCircuit.generateConstraints P ⟨publicInputs, witness⟩ = .ok cs →
        zkTransferPublicInputsToFieldElements (ε := ε) encoding publicInputs =
          .ok (cs.fieldElements encoding)) ∧
    (∃ elements, zkTransferPublicInputsToFieldElements (ε := ε) encoding publicInputs =
        .ok elements ∧
      elements.length = 320 + 256 * publicInputs.outputCommitments.length) ∧
    ∀ other, zkTransferPublicInputsToFieldElements (ε := ε) encoding other =
      zkTransferPublicInputsToFieldElements encoding publicInputs → other = publicInputs := by
  refine ⟨fun witness cs h => ?_, ⟨_, fieldElements_eq_ok encoding publicInputs, ?_⟩,
    fun other h => ?_⟩
  · obtain ⟨rfl, hvalid⟩ := generateConstraints_eq_ok h
    have hlen := (verifyZkTransferPublicInputs_ok.mp hvalid).length_eq
    let circuit : ZkTransferCircuit := ⟨publicInputs, witness⟩
    have hinputs := (circuit.publishes_synthesize hlen).inputs_eq
    rw [fieldElements_eq_ok, ConstraintSystem.fieldElements, ZkTransferCircuit.constraintSystem,
      hinputs]
  · rw [encoding.length_flatMap, publicInputs.length_bytes]
    omega
  · rw [fieldElements_eq_ok, fieldElements_eq_ok] at h
    exact ZkTransferPublicInputs.bytes_injective (encoding.flatMap_injective (Except.ok.inj h))

end Agreement

/-! ## From the proof to the verdict -/

section Verdict

variable {P : Primitives} {G : ProofSystem Fr}

/-- A proof of a valid transfer is made from the system of its circuit. -/
theorem generateZkTransferProof_run {circuit : ZkTransferCircuit}
    (h : verifyZkTransferPublicInputs P circuit.publicInputs circuit.witness = .ok ())
    (provingKey : G.ProvingKey) (rng : G.Rng) :
    (generateZkTransferProof P G provingKey circuit.publicInputs circuit.witness).run rng =
      (((G.createProof provingKey circuit.constraintSystem).run rng).1.mapError
        fun e => .provingFailed (.inr e),
      ((G.createProof provingKey circuit.constraintSystem).run rng).2) := by
  have hcs : ZkTransferCircuit.generateConstraints P
      ⟨circuit.publicInputs, circuit.witness⟩ = .ok circuit.constraintSystem :=
    generateConstraints_of_verify h
  rw [generateZkTransferProof, h, Procedure.bind_run, Procedure.lift_run, hcs]
  exact (Procedure.bind_run _ _ _).trans (Procedure.adapt_run _ _ _)

/-- The verdict on a transaction is the verdict on the elements of its public inputs. -/
theorem AnonTransaction.verify_eq {transaction : AnonTransaction} {proof : G.Proof}
    (h : G.deserializeCompressed transaction.proof = .ok proof) (verifyingKey : G.VerifyingKey) :
    transaction.verify G verifyingKey =
      ((G.verifyProof (G.prepareVerifyingKey verifyingKey) proof
        (transaction.publicInputs.bytes.flatMap G.encoding.byteElements)).mapError
          .verificationFailed).mapError .verificationFailed := by
  rw [verify, decodeProof, h]
  show (verifyZkTransferProof G verifyingKey transaction.publicInputs proof).mapError _ = _
  rw [verifyZkTransferProof, verifyZkTransferProofWithPreparedKey, fieldElements_eq_ok]
  rfl

/-- A transaction with another number of outputs than the key has is an error, with any proof. -/
theorem AnonTransaction.verify_error (hG : G.Lawful P.sha256) {setup : ConstraintSystem}
    {seed rest : G.Rng} {pk : G.ProvingKey}
    (hkeys : (G.generateParameters setup).run seed = (.ok pk, rest))
    {transaction : AnonTransaction}
    (hlength : 40 + 32 * transaction.outputCommitments.length ≠ setup.inputs.length) :
    ∃ e, transaction.verify G (G.vk pk) = .error e := by
  cases hproof : G.deserializeCompressed transaction.proof with
  | error e => exact ⟨_, by rw [verify, decodeProof, hproof]; rfl⟩
  | ok proof =>
    have helements : (transaction.publicInputs.bytes.flatMap G.encoding.byteElements).length ≠
        8 * setup.inputs.length := by
      rw [G.encoding.length_flatMap, ZkTransferPublicInputs.length_bytes]
      have : transaction.publicInputs.outputCommitments = transaction.outputCommitments := rfl
      rw [this]
      omega
    obtain ⟨e, he⟩ := hG.malformed setup seed pk rest hkeys proof _ helements
    rw [verify_eq hproof, he]
    exact ⟨_, rfl⟩

/-- **What is proved verifies.** The keys are those of the system of one transfer, and another
transfer has this system. Then a proof of it is made, the transaction with its bytes has the public
inputs of the transfer, and it verifies with the verifying key and with the prepared one. A
transaction with another number of outputs never does: it is an error. -/
theorem anonymous_transfer_verifies (P : Primitives) (G : ProofSystem Fr)
    (hG : G.Lawful P.sha256) (setup circuit : ZkTransferCircuit)
    (hsame : SameSystem P setup circuit) (seed rest : G.Rng) (pk : G.ProvingKey)
    (hkeys : (G.generateParameters setup.constraintSystem).run seed = (.ok pk, rest))
    (rng : G.Rng) :
    ∃ proof rng' transaction,
      (generateZkTransferProof P G pk circuit.publicInputs circuit.witness).run rng =
          (.ok proof, rng') ∧
        AnonTransaction.new G circuit.publicInputs proof = .ok transaction ∧
        transaction.publicInputs = circuit.publicInputs ∧
        transaction.verify G (G.vk pk) = .ok true ∧
        transaction.verifyWithPreparedKey G (G.prepareVerifyingKey (G.vk pk)) = .ok true ∧
        ∀ other : AnonTransaction,
          other.outputCommitments.length ≠ transaction.outputCommitments.length →
            ∃ e, other.verify G (G.vk pk) = .error e := by
  obtain ⟨cs, cs', hcs, hcs', hsystem⟩ := hsame
  obtain ⟨rfl, -⟩ := generateConstraints_eq_ok hcs
  obtain ⟨rfl, hvalid⟩ := generateConstraints_eq_ok hcs'
  have hsatisfies := (complete_synthesize (verifyZkTransferPublicInputs_ok.mp hvalid)).satisfies
  obtain ⟨proof, rng', hproof, hverdict⟩ :=
    hG.complete _ seed pk rest hkeys _ hsystem hsatisfies rng
  obtain ⟨bytes, hbytes, hread⟩ := hG.serialized proof
  have hlen := (verifyZkTransferPublicInputs_ok.mp hvalid).length_eq
  have hinputs := (ZkTransferCircuit.publishes_synthesize hlen).inputs_eq
  rw [ConstraintSystem.fieldElements, ZkTransferCircuit.constraintSystem, hinputs] at hverdict
  let transaction : AnonTransaction := ⟨circuit.publicInputs.merkleRoot, circuit.publicInputs.fee,
    circuit.publicInputs.outputCommitments, bytes⟩
  have hverify : transaction.verify G (G.vk pk) = .ok true := by
    rw [AnonTransaction.verify_eq hread]
    show ((G.verifyProof _ proof
      (circuit.publicInputs.bytes.flatMap G.encoding.byteElements)).mapError _).mapError _ = _
    rw [hverdict]
    rfl
  refine ⟨proof, rng', transaction, ?_, ?_, rfl, hverify, hverify, fun other hother => ?_⟩
  · rw [generateZkTransferProof_run hvalid, hproof]
    rfl
  · rw [AnonTransaction.new, hbytes]
    rfl
  · refine AnonTransaction.verify_error hG hkeys ?_
    have hpublic : setup.constraintSystem.inputs.length =
        40 + 32 * circuit.publicInputs.outputCommitments.length := by
      rw [hsystem.inputs, ← ZkTransferPublicInputs.length_bytes, ← hinputs]
      rfl
    have hlength : other.outputCommitments.length ≠
        circuit.publicInputs.outputCommitments.length := hother
    omega

end Verdict

/-- The keys of the setup serve the transfer of the first note, to the end. -/
theorem spendFirst_verifies : ∃ reference metadata pk proof transaction,
    buildReferenceZkTransferSetupCircuit noSignatures = .ok (reference, metadata) ∧
      (generateZkTransferProof noSignatures (.transparent Fr noSignatures.sha256) pk
        spendFirst.publicInputs spendFirst.witness).run () = (.ok proof, ()) ∧
      AnonTransaction.new (.transparent Fr noSignatures.sha256) spendFirst.publicInputs proof =
        .ok transaction ∧
      transaction.verify (.transparent Fr noSignatures.sha256)
        ((ProofSystem.transparent Fr noSignatures.sha256).vk pk) = .ok true := by
  obtain ⟨reference, metadata, href⟩ := buildReference_isOk
  obtain ⟨hvalid, hshape, hdirections⟩ := buildReference_eq_ok href
  have hsame : SameSystem noSignatures reference spendFirst :=
    (sameSystem_iff hvalid (verify_spends spendFirst (by simp)) (hshape.trans rfl)).mpr
      (hdirections.trans rfl)
  obtain ⟨proof, rng', transaction, hproof, hnew, -, hverify, -⟩ :=
    anonymous_transfer_verifies noSignatures (.transparent Fr noSignatures.sha256)
      (ProofSystem.transparent_lawful Fr noSignatures.sha256) reference spendFirst hsame () ()
      reference.constraintSystem rfl ()
  exact ⟨reference, metadata, _, proof, transaction, href, hproof, hnew, hverify⟩

end Prims
