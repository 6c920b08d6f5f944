import Prims.Privacy.Completeness

/-!
# The circuit of the setup

Proving and verifying keys are made for one constraint system. The setup makes them from a
reference transfer and records its shape: one input, two outputs, and the length of the Merkle
path. The system of a transfer is not a function of its shape, because the order of the children
on a path is decided by the index of the leaf while the circuit is built. Two transfers of one
shape have one system if and only if their leaf indices agree on as many bits as their paths have
siblings, so the keys of the reference transfer serve the leaves on its side of the tree only.

## Main definitions

* `ZkTransferWitness.shape`, `ZkTransferWitness.directions`: the shape of a transfer, and the sides
  that its paths take
* `SameSystem`: two transfers with one constraint system
* `buildReferenceZkTransferSetupCircuit`: the reference transfer

## Main results

* `ZkTransferCircuit.lockstep_synthesizePath`: when two paths are built alike
* `shape_determines_system_iff`: when transfers of one shape have one system, and which of them
  the keys of the setup serve
-/

namespace Prims

open Bincode Circuit

/-! ## Shapes -/

/-- The shape of a transfer: the length of each path, and the number of outputs. -/
def ZkTransferWitness.shape (witness : ZkTransferWitness) : List ℕ × ℕ :=
  (witness.inputs.map fun input => input.merkleProof.siblings.length, witness.outputs.length)

/-- The sides that the paths take: of each leaf index, the bits that its path reads. -/
def ZkTransferWitness.directions (witness : ZkTransferWitness) : List ℕ :=
  witness.inputs.map fun input =>
    input.merkleProof.leafIndex % 2 ^ input.merkleProof.siblings.length

/-- Both transfers are synthesized, to one system. -/
def SameSystem (P : Primitives) (circuit circuit' : ZkTransferCircuit) : Prop :=
  ∃ cs cs' : ConstraintSystem, circuit.generateConstraints P = .ok cs ∧
    circuit'.generateConstraints P = .ok cs' ∧ cs.Same cs'

namespace ZkTransferCircuit

/-- The message of the node above, by the side of the digest so far. -/
def pathMessageVar (index : ℕ) (currentHash sibling : BytesVar) : BytesVar :=
  if index % 2 = 0 then
    .append (.append (.constant (utf8 "prims-note-merkle-node")) currentHash) sibling
  else .append (.append (.constant (utf8 "prims-note-merkle-node")) sibling) currentHash

theorem synthesizePath_cons (currentHash : BytesVar) (index : ℕ) (sibling : Bytes32)
    (siblings : List Bytes32) :
    synthesizePath currentHash index (sibling :: siblings) =
      newWitness sibling.toList >>= fun siblingVar =>
        synthesizePath (.hash (pathMessageVar index currentHash siblingVar)) (index / 2)
          siblings := by
  rw [synthesizePath]
  congr 1
  funext siblingVar
  unfold pathMessageVar
  split <;> rfl

/-- A digest is not a sibling, so the message tells the side. -/
theorem pathMessageVar_eq_iff {index index' start length : ℕ} {m m' : BytesVar} :
    pathMessageVar index (.hash m) (.witness start length) =
        pathMessageVar index' (.hash m') (.witness start length) ↔
      m = m' ∧ index % 2 = index' % 2 := by
  rcases Nat.mod_two_eq_zero_or_one index with h | h <;>
    rcases Nat.mod_two_eq_zero_or_one index' with h' | h' <;>
    simp [pathMessageVar, h, h']

/-- The low bits of two numbers, the last one apart. -/
theorem mod_two_pow_succ_eq_iff (n index index' : ℕ) :
    index % 2 ^ (n + 1) = index' % 2 ^ (n + 1) ↔
      index % 2 = index' % 2 ∧ index / 2 % 2 ^ n = index' / 2 % 2 ^ n := by
  rw [Nat.pow_succ', Nat.mod_mul, Nat.mod_mul]
  omega

/-- **Two paths** of one length, each with a step that tells its result, are built alike if and
only if they start alike and take the same sides. -/
theorem lockstep_synthesizePath {α : Type} {next : BytesVar → Synthesis α}
    (hnext : ∀ x x', Lockstep (next x) (next x') (x = x')) {siblings siblings' : List Bytes32}
    (hlen : siblings.length = siblings'.length) (m m' : BytesVar) (index index' : ℕ) :
    Lockstep (synthesizePath (.hash m) index siblings >>= next)
      (synthesizePath (.hash m') index' siblings' >>= next)
      (m = m' ∧ index % 2 ^ siblings.length = index' % 2 ^ siblings'.length) := by
  induction siblings generalizing siblings' m m' index index' with
  | nil =>
    obtain rfl := List.length_eq_zero_iff.mp hlen.symm
    refine (hnext (.hash m) (.hash m')).congr ?_
    simp [Nat.mod_one]
  | cons sibling siblings ih =>
    match siblings', hlen with
    | sibling' :: siblings', hlen =>
      have hlen : siblings.length = siblings'.length := Nat.succ_inj.mp hlen
      rw [synthesizePath_cons, synthesizePath_cons, bind_assoc, bind_assoc]
      refine Lockstep.newWitness_bind (by simp) fun start => ?_
      refine (ih hlen _ _ (index / 2) (index' / 2)).congr ?_
      -- the message gives the lowest bit, and the rest of the path the other bits
      rw [pathMessageVar_eq_iff, List.length_cons, List.length_cons, ← hlen,
        mod_two_pow_succ_eq_iff, and_assoc]

theorem lockstep_synthesizeInput (rootVar : BytesVar) {input input' : ZkNoteInputWitness}
    (hlen : input.merkleProof.siblings.length = input'.merkleProof.siblings.length) :
    Lockstep (synthesizeInput rootVar input) (synthesizeInput rootVar input')
      (input.merkleProof.leafIndex % 2 ^ input.merkleProof.siblings.length =
        input'.merkleProof.leafIndex % 2 ^ input'.merkleProof.siblings.length) := by
  refine Lockstep.newWitness_bind (by simp) fun value => ?_
  refine Lockstep.newWitness_bind (by simp) fun spendingPrivateKey => ?_
  refine Lockstep.newWitness_bind (by simp) fun blinding => ?_
  refine Lockstep.newWitness_bind (by simp) fun leaf => ?_
  -- the path ends in an equation with the root, which tells what the path is
  refine Lockstep.enforce_self_bind ?_
  have hend : ∀ (v : UInt64Var) (x x' : BytesVar),
      Lockstep (enforce (.equalBytes x rootVar) >>= fun _ => pure v)
        (enforce (.equalBytes x' rootVar) >>= fun _ => pure v) (x = x') := by
    intro v x x'
    refine Lockstep.congr (Lockstep.enforce_bind (.pure v)) ?_
    simp
  refine (lockstep_synthesizePath (hend _) hlen _ _ _ _).congr ?_
  exact and_iff_right rfl

theorem lockstep_synthesizeOutput (output output' : ZkNoteOutputWitness)
    (commitment commitment' : Bytes32) :
    Lockstep (synthesizeOutput output commitment) (synthesizeOutput output' commitment') True := by
  refine Lockstep.newWitness_bind (by simp) fun value => ?_
  refine Lockstep.newWitness_bind (by simp) fun recipientPublicKey => ?_
  refine Lockstep.newWitness_bind (by simp) fun blinding => ?_
  refine Lockstep.newInput_bind (by simp) fun publicCommitment => ?_
  exact Lockstep.enforce_self_bind (.pure _)

/-- The outputs are synthesized alike, when there are as many. -/
theorem lockstep_synthesizeOutputs {l l' : List (ZkNoteOutputWitness × Bytes32)}
    (hlen : l.length = l'.length) :
    Lockstep (l.mapM fun entry => synthesizeOutput entry.1 entry.2)
      (l'.mapM fun entry => synthesizeOutput entry.1 entry.2) True := by
  have halike : List.Forall₂ (fun _ _ => True) l l' :=
    List.forall₂_iff_zip.mpr ⟨hlen, fun _ => trivial⟩
  have hmapM := Lockstep.mapM (halike.imp fun entry entry' _ =>
    lockstep_synthesizeOutput entry.1 entry'.1 entry.2 entry'.2)
  exact hmapM.congr (iff_of_true halike trivial)

/-- Transfers of one shape are synthesized alike if and only if their paths take the same sides. -/
theorem lockstep_synthesize {circuit circuit' : ZkTransferCircuit}
    (hlen : circuit.witness.outputs.length = circuit.publicInputs.outputCommitments.length)
    (hlen' : circuit'.witness.outputs.length = circuit'.publicInputs.outputCommitments.length)
    (hshape : circuit.witness.shape = circuit'.witness.shape) :
    Lockstep circuit.synthesize circuit'.synthesize
      (circuit.witness.directions = circuit'.witness.directions) := by
  obtain ⟨hpaths, houtputs⟩ := Prod.ext_iff.mp hshape
  change circuit.witness.inputs.map _ = circuit'.witness.inputs.map _ at hpaths
  change circuit.witness.outputs.length = circuit'.witness.outputs.length at houtputs
  rw [← List.forall₂_eq_eq_eq, List.forall₂_map_left_iff, List.forall₂_map_right_iff] at hpaths
  rw [ZkTransferWitness.directions, ZkTransferWitness.directions, ← List.forall₂_eq_eq_eq,
    List.forall₂_map_left_iff, List.forall₂_map_right_iff]
  refine Lockstep.newInput_bind (by simp) fun root => ?_
  refine Lockstep.newInput_bind (by simp) fun fee => ?_
  have hinputs := Lockstep.mapM (hpaths.imp fun _ _ h => lockstep_synthesizeInput
    (.input root circuit.publicInputs.merkleRoot.toList.length) h)
  have hzip : (circuit.witness.outputs.zip circuit.publicInputs.outputCommitments).length =
      (circuit'.witness.outputs.zip circuit'.publicInputs.outputCommitments).length := by
    rw [List.length_zip, List.length_zip, ← hlen, ← hlen', houtputs]
  have houtputs := lockstep_synthesizeOutputs hzip
  refine Lockstep.congr (hinputs.bind (q := True ∧ True) fun _ => houtputs.bind fun _ => ?_) ?_
  · exact Lockstep.enforce_self_bind (.pure _)
  · rw [and_true, and_true]

end ZkTransferCircuit

variable {P : Primitives}

/-- Valid transfers of one shape have one system if and only if their paths take the same sides. -/
theorem sameSystem_iff {circuit circuit' : ZkTransferCircuit}
    (h : verifyZkTransferPublicInputs P circuit.publicInputs circuit.witness = .ok ())
    (h' : verifyZkTransferPublicInputs P circuit'.publicInputs circuit'.witness = .ok ())
    (hshape : circuit.witness.shape = circuit'.witness.shape) :
    SameSystem P circuit circuit' ↔
      circuit.witness.directions = circuit'.witness.directions := by
  have hlen := (verifyZkTransferPublicInputs_ok.mp h).length_eq
  have hlen' := (verifyZkTransferPublicInputs_ok.mp h').length_eq
  rw [← (ZkTransferCircuit.lockstep_synthesize hlen hlen' hshape).same_iff]
  constructor
  · rintro ⟨cs, cs', hcs, hcs', hsame⟩
    rw [generateConstraints_of_verify h] at hcs
    rw [generateConstraints_of_verify h'] at hcs'
    cases hcs
    cases hcs'
    exact hsame
  · intro hsame
    exact ⟨_, _, generateConstraints_of_verify h, generateConstraints_of_verify h', hsame⟩

/-! ## The reference transfer -/

/-- The shape that the setup records with its keys. -/
structure ZkTransferSetupCircuitMetadata where
  inputCount : ℕ
  outputCount : ℕ
  merklePathLen : ℕ
  treeLeafCount : ℕ
  fee : UInt64
  deriving DecidableEq

inductive ZkTransferSetupError where
  | invalidReferenceInputNote
  | invalidReferenceFillerNote
  | invalidReferenceMerkleProof
  deriving DecidableEq, Repr

/-- The outputs of the reference transfer. -/
def referenceOutputs : List ZkNoteOutputWitness :=
  [⟨40, .replicate 32 41, .replicate 32 51⟩, ⟨25, .replicate 32 42, .replicate 32 52⟩]

/-- **The reference transfer** spends the first of two notes. -/
def buildReferenceZkTransferSetupCircuit (P : Primitives) :
    Except ZkTransferSetupError (ZkTransferCircuit × ZkTransferSetupCircuitMetadata) := do
  let ownerPrivateKey : Bytes32 := .replicate 32 21
  let ownerPublicKey := deriveNoteRecipientPublicKey P ownerPrivateKey
  let inputNote ← (Note.new P 70 ownerPublicKey (.replicate 32 31)).mapError
    fun _ => .invalidReferenceInputNote
  let fillerNote ← (Note.new P 5 (.replicate 32 22) (.replicate 32 32)).mapError
    fun _ => .invalidReferenceFillerNote
  let tree := NoteMerkleTree.fromNotes [inputNote, fillerNote]
  let merkleProof ← (tree.generateProof P 0).mapError fun _ => .invalidReferenceMerkleProof
  let outputCommitments := referenceOutputs.map fun output =>
    Note.computeCommitment P output.value output.recipientPublicKey output.blinding
  let metadata : ZkTransferSetupCircuitMetadata := {
    inputCount := 1
    outputCount := referenceOutputs.length
    merklePathLen := merkleProof.siblings.length
    treeLeafCount := 2
    fee := 5
  }
  return ({
    publicInputs := ⟨tree.root P, metadata.fee, outputCommitments⟩
    witness := ⟨[⟨70, ownerPrivateKey, .replicate 32 31, merkleProof⟩], referenceOutputs⟩
  }, metadata)

/-- The reference transfer is valid, has one input, two outputs and a path of length one, and spends
the leaf on the left. -/
theorem buildReference_eq_ok {reference : ZkTransferCircuit}
    {metadata : ZkTransferSetupCircuitMetadata}
    (h : buildReferenceZkTransferSetupCircuit P = .ok (reference, metadata)) :
    verifyZkTransferPublicInputs P reference.publicInputs reference.witness = .ok () ∧
      reference.witness.shape = ([1], 2) ∧ reference.witness.directions = [0] := by
  simp only [buildReferenceZkTransferSetupCircuit, Except.bind_eq_ok, Except.mapError_eq_ok] at h
  obtain ⟨inputNote, hinput, fillerNote, -, merkleProof, hproof, h⟩ := h
  cases h
  have hroot := root_of_generateProof hproof
  have htwo : (NoteMerkleTree.fromNotes [inputNote, fillerNote]).generateProof P 0 =
      .ok ⟨0, inputNote.commitment, [NoteMerkleTree.hashLeaf P fillerNote.commitment]⟩ := rfl
  rw [htwo] at hproof
  cases hproof
  refine ⟨verifyZkTransferPublicInputs_ok.mpr ?_, rfl, rfl⟩
  have hkey : (.replicate 32 21 : Bytes32) ≠ zeroBytes32 := by decide
  have hlt : 70 < 2 ^ 64 := by decide
  refine ⟨List.cons_ne_nil _ _, List.cons_ne_nil _ _, rfl, ?_, ?_, rfl, hlt⟩
  · intro input hmem
    obtain rfl := List.mem_singleton.mp hmem
    exact ⟨hkey, hinput, hroot⟩
  · intro index hindex
    have hvalid : ∀ output ∈ referenceOutputs, output.value ≠ 0 ∧
        output.recipientPublicKey ≠ zeroBytes32 ∧ output.blinding ≠ zeroBytes32 := by decide
    refine ⟨⟨_⟩, Note.new_eq_ok.mpr ⟨hvalid _ (List.getElem_mem hindex), rfl⟩, ?_⟩
    rw [List.getElem?_map, List.getElem?_eq_getElem hindex]
    rfl

/-- **When transfers share a system**: valid transfers of one shape have one constraint system if
and only if the leaf indices of each input agree on as many bits as its path has siblings; the
system of the setup is that of a valid transfer with one input, two outputs and a path of length
one if and only if the index of its leaf is even. -/
theorem shape_determines_system_iff (P : Primitives) :
    (∀ circuit circuit' : ZkTransferCircuit,
      verifyZkTransferPublicInputs P circuit.publicInputs circuit.witness = .ok () →
      verifyZkTransferPublicInputs P circuit'.publicInputs circuit'.witness = .ok () →
      circuit.witness.shape = circuit'.witness.shape →
      (SameSystem P circuit circuit' ↔
        circuit.witness.directions = circuit'.witness.directions)) ∧
    (∀ (reference : ZkTransferCircuit) (metadata : ZkTransferSetupCircuitMetadata)
      (circuit : ZkTransferCircuit),
      buildReferenceZkTransferSetupCircuit P = .ok (reference, metadata) →
      verifyZkTransferPublicInputs P circuit.publicInputs circuit.witness = .ok () →
      circuit.witness.shape = ([1], 2) →
      (SameSystem P reference circuit ↔
        ∀ input ∈ circuit.witness.inputs, input.merkleProof.leafIndex % 2 = 0)) := by
  refine ⟨fun circuit circuit' h h' hshape => sameSystem_iff h h' hshape, ?_⟩
  intro reference metadata circuit href h hshape
  obtain ⟨hvalid, hrefshape, hdirections⟩ := buildReference_eq_ok href
  rw [sameSystem_iff hvalid h (hrefshape.trans hshape.symm), hdirections]
  obtain ⟨input, hinputs, hone⟩ := List.map_eq_singleton_iff.mp (Prod.ext_iff.mp hshape).1
  rw [ZkTransferWitness.directions, hinputs, List.map_singleton, hone, List.forall_mem_singleton,
    List.singleton_inj, Nat.pow_one]
  exact eq_comm

/-! ## The two notes of one value -/

theorem buildReference_isOk : ∃ reference metadata,
    buildReferenceZkTransferSetupCircuit noSignatures = .ok (reference, metadata) := by
  have h : (buildReferenceZkTransferSetupCircuit noSignatures).isOk = true := by decide +kernel
  cases hok : buildReferenceZkTransferSetupCircuit noSignatures with
  | error e =>
    rw [hok] at h
    cases h
  | ok r => exact ⟨r.1, r.2, rfl⟩

/-- The keys of the setup serve the transfer of the first note. -/
theorem spendFirst_served : ∃ reference metadata,
    buildReferenceZkTransferSetupCircuit noSignatures = .ok (reference, metadata) ∧
      SameSystem noSignatures reference spendFirst ∧
      (SameSystem noSignatures spendFirst spendSecond ↔
        spendFirst.witness.directions = spendSecond.witness.directions) := by
  obtain ⟨reference, metadata, href⟩ := buildReference_isOk
  have hfirst := verify_spends spendFirst (by simp)
  have hsecond := verify_spends spendSecond (by simp)
  have htheorem := shape_determines_system_iff noSignatures
  refine ⟨reference, metadata, href, ?_, htheorem.1 spendFirst spendSecond hfirst hsecond rfl⟩
  exact (htheorem.2 reference metadata spendFirst href hfirst rfl).mpr (by decide)

/-- The path of the second note is not a path of the first circuit. -/
theorem spendSecond_not_satisfies :
    ¬ spendSecond.constraintSystem.assignment.Satisfies noSignatures.sha256
      spendFirst.constraintSystem := by
  decide +kernel

/-- **One shape, two systems**: the two notes are leaves of one tree, and the transfers have the
same public inputs. The system of the second note is neither that of the first nor that of the
setup, and its values do not satisfy the equations of the first. -/
theorem spendSecond_not_served :
    verifyZkTransferPublicInputs noSignatures spendFirst.publicInputs spendFirst.witness =
        .ok () ∧
      verifyZkTransferPublicInputs noSignatures spendSecond.publicInputs spendSecond.witness =
        .ok () ∧
      spendFirst.witness.shape = ([1], 2) ∧ spendSecond.witness.shape = ([1], 2) ∧
      ¬ SameSystem noSignatures spendFirst spendSecond ∧
      ¬ spendSecond.constraintSystem.assignment.Satisfies noSignatures.sha256
        spendFirst.constraintSystem ∧
      ∃ reference metadata,
        buildReferenceZkTransferSetupCircuit noSignatures = .ok (reference, metadata) ∧
          ¬ SameSystem noSignatures reference spendSecond := by
  have hfirst := verify_spends spendFirst (by simp)
  have hsecond := verify_spends spendSecond (by simp)
  refine ⟨hfirst, hsecond, rfl, rfl, ?_, spendSecond_not_satisfies, ?_⟩
  · rw [sameSystem_iff hfirst hsecond rfl]
    decide
  · obtain ⟨reference, metadata, href⟩ := buildReference_isOk
    obtain ⟨hvalid, hshape, hdirections⟩ := buildReference_eq_ok href
    refine ⟨reference, metadata, href, ?_⟩
    rw [sameSystem_iff hvalid hsecond hshape, hdirections]
    decide

end Prims
