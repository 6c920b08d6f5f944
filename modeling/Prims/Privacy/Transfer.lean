import Mathlib.Algebra.Order.BigOperators.Group.List
import Prims.Privacy.Notes

/-!
# Anonymous transfers

The native verification of an anonymous transfer, `verify_zk_transfer_public_inputs`: each input
is a note of the tree whose spending key is known, each output is committed to publicly, and the
values balance. Nothing marks a note as spent, so a transfer may use one note as several inputs,
and then it creates value. A transfer that uses no note more often than the tree holds it does
not.

## Main definitions

* `verifyZkTransferPublicInputs`: the verification
* `ValidTransfer`: what it checks
* `transferMessages`: what it hashes

## Main results

* `verifyZkTransferPublicInputs_ok`: the verification accepts the valid transfers
* `transfer_value_le`: a transfer without repeated notes is worth at most the tree
-/

namespace Prims

open Bincode

/-! ## The verification -/

/-- The private data of a consumed note. -/
structure ZkNoteInputWitness where
  value : UInt64
  spendingPrivateKey : Bytes32
  blinding : Bytes32
  merkleProof : NoteMerkleProof
  deriving DecidableEq

/-- The private data of a created note. -/
structure ZkNoteOutputWitness where
  value : UInt64
  recipientPublicKey : Bytes32
  blinding : Bytes32
  deriving DecidableEq

structure ZkTransferPublicInputs where
  merkleRoot : Bytes32
  fee : UInt64
  outputCommitments : List Bytes32
  deriving DecidableEq

structure ZkTransferWitness where
  inputs : List ZkNoteInputWitness
  outputs : List ZkNoteOutputWitness
  deriving DecidableEq

/-- The reasons a transfer is rejected. -/
inductive ZkTransferError where
  | missingInputs
  | missingOutputs
  | outputCommitmentCountMismatch (expected actual : ℕ)
  | invalidSpendingPrivateKey (index : ℕ)
  | invalidInputNote (index : ℕ)
  | invalidInputCommitment (index : ℕ)
  | invalidMerkleProof (index : ℕ)
  | invalidOutputNote (index : ℕ)
  | invalidOutputCommitment (index : ℕ)
  | amountOverflow
  | amountImbalance (inputsTotal outputsTotal fee : UInt64)
  deriving DecidableEq, Repr

section Verification

variable (P : Primitives)

/-- The opening of the note that an input consumes. -/
def ZkNoteInputWitness.opening (input : ZkNoteInputWitness) : NoteOpening where
  value := input.value
  recipientPublicKey := deriveNoteRecipientPublicKey P input.spendingPrivateKey
  blinding := input.blinding

/-- The opening of the note that an output creates. -/
def ZkNoteOutputWitness.opening (output : ZkNoteOutputWitness) : NoteOpening where
  value := output.value
  recipientPublicKey := output.recipientPublicKey
  blinding := output.blinding

/-- The checks on one input. -/
def verifyInput (merkleRoot : Bytes32) (index : ℕ) (input : ZkNoteInputWitness) :
    Except ZkTransferError Unit :=
  if input.spendingPrivateKey = zeroBytes32 then .error (.invalidSpendingPrivateKey index)
  else
    let recipientPublicKey := deriveNoteRecipientPublicKey P input.spendingPrivateKey
    match Note.new P input.value recipientPublicKey input.blinding with
    | .error _ => .error (.invalidInputNote index)
    | .ok expectedNote =>
      if input.merkleProof.leaf ≠ expectedNote.commitment then
        .error (.invalidInputCommitment index)
      else if computeNoteMerkleRootFromProof P input.merkleProof ≠ merkleRoot then
        .error (.invalidMerkleProof index)
      else .ok ()

/-- The checks on one output. -/
def verifyOutput (outputCommitments : List Bytes32) (index : ℕ) (output : ZkNoteOutputWitness) :
    Except ZkTransferError Unit :=
  match Note.new P output.value output.recipientPublicKey output.blinding with
  | .error _ => .error (.invalidOutputNote index)
  | .ok expectedNote =>
    -- there is a commitment at every index, by the count check before the loop
    if outputCommitments[index]? ≠ some expectedNote.commitment then
      .error (.invalidOutputCommitment index)
    else .ok ()

/-- A loop over the notes of a transfer: each is checked, and the values are added up. -/
def verifyNotes {α : Type} (check : ℕ → α → Except ZkTransferError Unit) (value : α → UInt64) :
    ℕ → UInt64 → List α → Except ZkTransferError UInt64
  | _, total, [] => .ok total
  | index, total, note :: notes => do
    check index note
    match total.checkedAdd (value note) with
    | none => .error .amountOverflow
    | some total => verifyNotes check value (index + 1) total notes

/-- **The native verification** of a transfer. -/
def verifyZkTransferPublicInputs (publicInputs : ZkTransferPublicInputs)
    (witness : ZkTransferWitness) : Except ZkTransferError Unit := do
  ensure (witness.inputs ≠ []) .missingInputs
  ensure (witness.outputs ≠ []) .missingOutputs
  ensure (witness.outputs.length = publicInputs.outputCommitments.length)
    (.outputCommitmentCountMismatch witness.outputs.length publicInputs.outputCommitments.length)
  let totalInputs ← verifyNotes (verifyInput P publicInputs.merkleRoot) ZkNoteInputWitness.value
    0 0 witness.inputs
  let totalOutputs ← verifyNotes (verifyOutput P publicInputs.outputCommitments)
    ZkNoteOutputWitness.value 0 0 witness.outputs
  match totalOutputs.checkedAdd publicInputs.fee with
  | none => .error .amountOverflow
  | some expectedInputsTotal =>
    ensure (totalInputs = expectedInputsTotal)
      (.amountImbalance totalInputs totalOutputs publicInputs.fee)

/-! ## What the verification checks -/

/-- An input is a note of the tree, whose spending key is known. -/
structure ValidInput (merkleRoot : Bytes32) (input : ZkNoteInputWitness) : Prop where
  spendingPrivateKey : input.spendingPrivateKey ≠ zeroBytes32
  note : Note.new P input.value (deriveNoteRecipientPublicKey P input.spendingPrivateKey)
    input.blinding = .ok ⟨input.merkleProof.leaf⟩
  root : computeNoteMerkleRootFromProof P input.merkleProof = merkleRoot

/-- **A valid transfer**: notes of the tree are consumed, the committed notes are created, and the
values balance as numbers. -/
structure ValidTransfer (publicInputs : ZkTransferPublicInputs) (witness : ZkTransferWitness) :
    Prop where
  inputs_ne_nil : witness.inputs ≠ []
  outputs_ne_nil : witness.outputs ≠ []
  length_eq : witness.outputs.length = publicInputs.outputCommitments.length
  inputs : ∀ input ∈ witness.inputs, ValidInput P publicInputs.merkleRoot input
  outputs : ∀ index (h : index < witness.outputs.length),
    ∃ note, Note.new P witness.outputs[index].value witness.outputs[index].recipientPublicKey
        witness.outputs[index].blinding = .ok note ∧
      publicInputs.outputCommitments[index]? = some note.commitment
  balance : (witness.inputs.map fun i => i.value.toNat).sum =
    (witness.outputs.map fun o => o.value.toNat).sum + publicInputs.fee.toNat
  total_lt : (witness.inputs.map fun i => i.value.toNat).sum < 2 ^ 64

variable {P}

theorem verifyInput_ok {merkleRoot : Bytes32} {index : ℕ} {input : ZkNoteInputWitness} :
    verifyInput P merkleRoot index input = .ok () ↔ ValidInput P merkleRoot input := by
  unfold verifyInput
  constructor
  · intro h
    split at h
    · cases h
    · next hkey =>
      cases hn : Note.new P input.value (deriveNoteRecipientPublicKey P input.spendingPrivateKey)
          input.blinding with
      | error e => simp [hn] at h
      | ok note =>
        by_cases hleaf : input.merkleProof.leaf = note.commitment
        · by_cases hroot : computeNoteMerkleRootFromProof P input.merkleProof = merkleRoot
          · exact ⟨hkey, by rw [hn, hleaf], hroot⟩
          · simp [hn, hleaf, hroot] at h
        · simp [hn, hleaf] at h
  · rintro ⟨hkey, hnote, hroot⟩
    simp [hkey, hnote, hroot]

theorem verifyOutput_ok {outputCommitments : List Bytes32} {index : ℕ}
    {output : ZkNoteOutputWitness} :
    verifyOutput P outputCommitments index output = .ok () ↔
      ∃ note, Note.new P output.value output.recipientPublicKey output.blinding = .ok note ∧
        outputCommitments[index]? = some note.commitment := by
  unfold verifyOutput
  cases hn : Note.new P output.value output.recipientPublicKey output.blinding with
  | error e => simp
  | ok note =>
    by_cases hc : outputCommitments[index]? = some note.commitment
    · simp [hc]
    · simp [hc]

/-- The loop accepts when every check does and the total does not overflow. -/
theorem verifyNotes_ok {α : Type} {check : ℕ → α → Except ZkTransferError Unit}
    {value : α → UInt64} {index : ℕ} {total total' : UInt64} {notes : List α} :
    verifyNotes check value index total notes = .ok total' ↔
      (∀ i (h : i < notes.length), check (index + i) notes[i] = .ok ()) ∧
        total'.toNat = total.toNat + (notes.map fun n => (value n).toNat).sum := by
  induction notes generalizing index total with
  | nil => simp [verifyNotes, ← UInt64.toNat_inj, eq_comm]
  | cons note notes ih =>
    rw [verifyNotes]
    cases hc : check index note with
    | error e =>
      simp only [bind, Except.bind, reduceCtorEq, false_iff, not_and]
      intro hall
      have := hall 0 (by simp)
      simp [hc] at this
    | ok u =>
      simp only [bind, Except.bind]
      have hsplit : (∀ i (h : i < (note :: notes).length),
          check (index + i) (note :: notes)[i] = .ok ()) ↔
          ∀ i (h : i < notes.length), check (index + 1 + i) notes[i] = .ok () := by
        constructor
        · intro hall i hi
          have := hall (i + 1) (by simpa using hi)
          rwa [List.getElem_cons_succ, ← Nat.add_assoc, Nat.add_right_comm] at this
        · intro hall i hi
          cases i with
          | zero => exact hc
          | succ i =>
            have := hall i (by simpa using hi)
            rwa [List.getElem_cons_succ, ← Nat.add_assoc, Nat.add_right_comm]
      cases hadd : total.checkedAdd (value note) with
      | none =>
        have hnone := UInt64.checkedAdd_eq_none.mp hadd
        have := total'.toNat_lt
        simp only [reduceCtorEq, List.map_cons, List.sum_cons, false_iff, not_and]
        omega
      | some next =>
        have hnext := UInt64.checkedAdd_eq_some.mp hadd
        simp only [ih, hsplit, hnext, List.map_cons, List.sum_cons, Nat.add_assoc]

/-- The verification, check by check. -/
theorem verifyZkTransferPublicInputs_eq_ok {publicInputs : ZkTransferPublicInputs}
    {witness : ZkTransferWitness} :
    verifyZkTransferPublicInputs P publicInputs witness = .ok () ↔
      witness.inputs ≠ [] ∧ witness.outputs ≠ [] ∧
        witness.outputs.length = publicInputs.outputCommitments.length ∧
        ∃ totalInputs, verifyNotes (verifyInput P publicInputs.merkleRoot)
            ZkNoteInputWitness.value 0 0 witness.inputs = .ok totalInputs ∧
          ∃ totalOutputs, verifyNotes (verifyOutput P publicInputs.outputCommitments)
              ZkNoteOutputWitness.value 0 0 witness.outputs = .ok totalOutputs ∧
            totalOutputs.checkedAdd publicInputs.fee = some totalInputs := by
  unfold verifyZkTransferPublicInputs
  rw [ensure_bind_eq_ok, ensure_bind_eq_ok, ensure_bind_eq_ok, Except.bind_eq_ok]
  simp only [Except.bind_eq_ok]
  refine and_congr_right fun _ => and_congr_right fun _ => and_congr_right fun _ => ?_
  refine exists_congr fun totalInputs => and_congr_right fun _ => exists_congr fun totalOutputs =>
    and_congr_right fun _ => ?_
  cases totalOutputs.checkedAdd publicInputs.fee with
  | none => simp
  | some expected =>
    rw [Option.some.injEq]
    exact ensure_eq_ok.trans eq_comm

/-- **The verification accepts the valid transfers**, and no others. -/
theorem verifyZkTransferPublicInputs_ok {publicInputs : ZkTransferPublicInputs}
    {witness : ZkTransferWitness} :
    verifyZkTransferPublicInputs P publicInputs witness = .ok () ↔
      ValidTransfer P publicInputs witness := by
  rw [verifyZkTransferPublicInputs_eq_ok]
  constructor
  · rintro ⟨hin, hout, hlen, totalInputs, hi, totalOutputs, ho, hadd⟩
    rw [verifyNotes_ok, UInt64.toNat_zero, Nat.zero_add] at hi ho
    rw [UInt64.checkedAdd_eq_some] at hadd
    have hlt := totalInputs.toNat_lt
    refine ⟨hin, hout, hlen, ?_, ?_, by omega, by omega⟩
    · intro input hmem
      obtain ⟨i, hi', rfl⟩ := List.mem_iff_getElem.mp hmem
      exact verifyInput_ok.mp (hi.1 i hi')
    · intro index hindex
      have := ho.1 index hindex
      rw [Nat.zero_add] at this
      exact verifyOutput_ok.mp this
  · intro h
    have hlt := h.total_lt
    have hbalance := h.balance
    -- the totals fit in 64 bits, so they are the exact sums
    refine ⟨h.inputs_ne_nil, h.outputs_ne_nil, h.length_eq,
      .ofNat (witness.inputs.map fun i => i.value.toNat).sum, ?_,
      .ofNat (witness.outputs.map fun o => o.value.toNat).sum, ?_, ?_⟩
    · rw [verifyNotes_ok, UInt64.toNat_ofNat', Nat.mod_eq_of_lt hlt, UInt64.toNat_zero,
        Nat.zero_add]
      exact ⟨fun i hi => verifyInput_ok.mpr (h.inputs _ (List.getElem_mem hi)), rfl⟩
    · rw [verifyNotes_ok, UInt64.toNat_ofNat', Nat.mod_eq_of_lt (by omega), UInt64.toNat_zero,
        Nat.zero_add]
      refine ⟨fun i hi => verifyOutput_ok.mpr ?_, rfl⟩
      rw [Nat.zero_add]
      exact h.outputs i hi
    · rw [UInt64.checkedAdd_eq_some, UInt64.toNat_ofNat', UInt64.toNat_ofNat',
        Nat.mod_eq_of_lt (by omega), Nat.mod_eq_of_lt (by omega)]
      exact hbalance

end Verification

/-! ## The value of a transfer -/

section Value

variable (P : Primitives)

/-- The messages hashed to verify an input. -/
def ZkNoteInputWitness.messages (input : ZkNoteInputWitness) : List Bytes :=
  ownerMessage input.spendingPrivateKey :: (input.opening P).message ::
    proofMessages P input.merkleProof

/-- The messages hashed to verify a transfer. -/
def transferMessages (witness : ZkTransferWitness) : List Bytes :=
  witness.inputs.flatMap (ZkNoteInputWitness.messages P) ++
    witness.outputs.map fun output => output.opening.message

/-- The commitments that a transfer consumes, as often as it does. -/
def ZkTransferWitness.leaves (witness : ZkTransferWitness) : List Bytes32 :=
  witness.inputs.map fun input => input.merkleProof.leaf

/-- The commitments of a list of notes. -/
def noteCommitments (notes : List NoteOpening) : List Bytes32 :=
  notes.map (NoteOpening.commitment P)

/-- The messages hashed to commit to the notes, to build their tree and to verify a transfer. -/
def spendMessages (notes : List NoteOpening) (witness : ZkTransferWitness) : List Bytes :=
  notes.map NoteOpening.message ++ treeMessages P (noteCommitments P notes) ++
    transferMessages P witness

variable {P}

theorem ValidInput.leaf_eq {merkleRoot : Bytes32} {input : ZkNoteInputWitness}
    (h : ValidInput P merkleRoot input) :
    input.merkleProof.leaf = (input.opening P).commitment P :=
  (Note.new_eq_ok.mp h.note).2

theorem messages_subset_spendMessages {notes : List NoteOpening} {witness : ZkTransferWitness}
    {input : ZkNoteInputWitness} (h : input ∈ witness.inputs) :
    input.messages P ⊆ spendMessages P notes witness := by
  intro m hm
  apply List.mem_append_right
  apply List.mem_append_left
  exact List.mem_flatMap.mpr ⟨input, h, hm⟩

/-- A sum over a list whose elements occur in another at least as often. -/
theorem sum_map_le_of_subperm {l₁ l₂ : List Bytes32} (h : l₁.Subperm l₂) (f : Bytes32 → ℕ) :
    (l₁.map f).sum ≤ (l₂.map f).sum := by
  obtain ⟨l, hperm, hsub⟩ := h
  rw [← (hperm.map f).sum_eq]
  exact (hsub.map f).sum_le_sum (by simp)

/-- Every commitment that a valid input consumes is in the tree. -/
theorem leaf_mem_noteCommitments {notes : List NoteOpening} {witness : ZkTransferWitness}
    (hcol : ¬ Collision P.sha256 (spendMessages P notes witness)) {input : ZkNoteInputWitness}
    (hinput : input ∈ witness.inputs)
    (hvalid : ValidInput P (NoteMerkleTree.root P ⟨noteCommitments P notes⟩) input) :
    input.merkleProof.leaf ∈ noteCommitments P notes := by
  have htree : treeMessages P (noteCommitments P notes) ⊆ spendMessages P notes witness :=
    List.Subset.trans (List.subset_append_right _ _) (List.subset_append_left _ _)
  have hproof : proofMessages P input.merkleProof ⊆ spendMessages P notes witness :=
    List.Subset.trans (fun m hm => by simp [ZkNoteInputWitness.messages, hm])
      (messages_subset_spendMessages hinput)
  apply leaf_mem_of_root_eq hcol htree hproof
  rw [hvalid.root]
  rfl

/-- A valid input has the value that the notes give to its commitment. -/
theorem noteValue_leaf {notes : List NoteOpening} {witness : ZkTransferWitness}
    (hcol : ¬ Collision P.sha256 (spendMessages P notes witness)) {input : ZkNoteInputWitness}
    (hinput : input ∈ witness.inputs)
    (hvalid : ValidInput P (NoteMerkleTree.root P ⟨noteCommitments P notes⟩) input) :
    noteValue P notes input.merkleProof.leaf = input.value.toNat := by
  have hnotes : notes.map NoteOpening.message ⊆ spendMessages P notes witness :=
    List.Subset.trans (List.subset_append_left _ _) (List.subset_append_left _ _)
  have hmessage : (input.opening P).message ∈ spendMessages P notes witness :=
    messages_subset_spendMessages hinput (by simp [ZkNoteInputWitness.messages])
  have hmem := leaf_mem_noteCommitments hcol hinput hvalid
  rw [hvalid.leaf_eq] at hmem
  rw [hvalid.leaf_eq, noteValue_commitment hcol hnotes hmessage hmem]
  rfl

/-- **A transfer that repeats no note creates no value**: when each note of the tree is consumed at
most as often as the tree holds it, the outputs and the fee are worth at most the notes of the
tree, unless there is a collision. -/
theorem transfer_value_le (P : Primitives) (notes : List NoteOpening)
    (publicInputs : ZkTransferPublicInputs) (witness : ZkTransferWitness)
    (hroot : publicInputs.merkleRoot = NoteMerkleTree.root P ⟨noteCommitments P notes⟩)
    (hok : verifyZkTransferPublicInputs P publicInputs witness = .ok ())
    (hcount : ∀ c ∈ noteCommitments P notes,
      witness.leaves.count c ≤ (noteCommitments P notes).count c) :
    (witness.outputs.map fun o => o.value.toNat).sum + publicInputs.fee.toNat ≤
        (notes.map fun n => n.value.toNat).sum ∨
      Collision P.sha256 (spendMessages P notes witness) := by
  by_cases hcol : Collision P.sha256 (spendMessages P notes witness)
  · exact .inr hcol
  left
  have hvalid := verifyZkTransferPublicInputs_ok.mp hok
  have hinputs := hvalid.inputs
  rw [hroot] at hinputs
  rw [← hvalid.balance]
  -- by the counts, what is consumed is a part of the tree
  have hsubperm : witness.leaves.Subperm (noteCommitments P notes) := by
    rw [List.subperm_ext_iff]
    intro c hc
    obtain ⟨input, hinput, rfl⟩ := List.mem_map.mp hc
    exact hcount _ (leaf_mem_noteCommitments hcol hinput (hinputs input hinput))
  have hin : witness.inputs.map (fun i => i.value.toNat) =
      witness.leaves.map (noteValue P notes) := by
    rw [ZkTransferWitness.leaves, List.map_map]
    refine List.map_congr_left fun input hinput => ?_
    exact (noteValue_leaf hcol hinput (hinputs input hinput)).symm
  have hout : notes.map (fun n => n.value.toNat) =
      (noteCommitments P notes).map (noteValue P notes) := by
    have hnotes : notes.map NoteOpening.message ⊆ spendMessages P notes witness :=
      List.Subset.trans (List.subset_append_left _ _) (List.subset_append_left _ _)
    rw [noteCommitments, List.map_map]
    refine List.map_congr_left fun note hnote => ?_
    rw [Function.comp_apply, noteValue_commitment hcol hnotes
      (hnotes (List.mem_map_of_mem hnote)) (List.mem_map_of_mem hnote)]
  rw [hin, hout]
  exact sum_map_le_of_subperm hsubperm _

end Value

/-! ## A repeated note -/

/-- A note of value 7 that belongs to the spending key `05..05`. -/
def sampleNote : NoteOpening where
  value := 7
  recipientPublicKey :=
    beVector 32 0xefa553f978bff57aa95a28a9b7f9371d920e9510044b5359ef00a5418f58fb41
  blinding := .replicate 32 6

/-- The commitment of the note. -/
def sampleCommitment : Bytes32 :=
  beVector 32 0x245d331e14900b6b4217449e6561edec8edd5b81906bf41e70fedac20d0e19d3

/-- The root of the tree that holds this note alone. -/
def sampleRoot : Bytes32 :=
  beVector 32 0x26697d77200c808f688a6043cfa6913531b7a5a3adbc5b394d3249469633ebdc

/-- The note as an input. -/
def sampleInput : ZkNoteInputWitness where
  value := 7
  spendingPrivateKey := .replicate 32 5
  blinding := .replicate 32 6
  merkleProof := ⟨0, sampleCommitment, []⟩

/-- A new note of value 7. -/
def sampleOutput : ZkNoteOutputWitness where
  value := 7
  recipientPublicKey := .replicate 32 4
  blinding := .replicate 32 3

/-- The commitment of the new note. -/
def sampleOutputCommitment : Bytes32 :=
  beVector 32 0xea9791b1132fe843bc7a3b884dfeb2e2204ccb805c7f76ac9a69be17cf0074c2

/-- The digests by their messages: the owner, the note, the leaf and the new note. -/
def sampleSpendDigests : List (Bytes × Bytes32) :=
  [(ownerMessage sampleInput.spendingPrivateKey, sampleNote.recipientPublicKey),
    (sampleNote.message, sampleCommitment), (leafMessage sampleCommitment, sampleRoot),
    (sampleOutput.opening.message, sampleOutputCommitment)]

theorem sampleSpendDigests_hash :
    ∀ entry ∈ sampleSpendDigests, Sha256.hash entry.1 = entry.2 := by
  decide +kernel

/-- The primitives with no signatures. -/
def noSignatures : Primitives := .recorded []

theorem sampleNote_commitment : noteCommitments noSignatures [sampleNote] = [sampleCommitment] := by
  have h : sampleNote.commitment noSignatures = sampleCommitment :=
    sampleSpendDigests_hash (sampleNote.message, sampleCommitment) (by simp [sampleSpendDigests])
  simp [noteCommitments, h]

theorem sampleCommitment_root :
    NoteMerkleTree.hashLeaf noSignatures sampleCommitment = sampleRoot :=
  sampleSpendDigests_hash (leafMessage sampleCommitment, sampleRoot) (by simp [sampleSpendDigests])

theorem sampleTree_root :
    NoteMerkleTree.root noSignatures ⟨noteCommitments noSignatures [sampleNote]⟩ = sampleRoot := by
  rw [sampleNote_commitment, ← sampleCommitment_root]
  rfl

theorem sampleInput_opening : sampleInput.opening noSignatures = sampleNote := by
  have h : deriveNoteRecipientPublicKey noSignatures sampleInput.spendingPrivateKey =
      sampleNote.recipientPublicKey :=
    sampleSpendDigests_hash (ownerMessage sampleInput.spendingPrivateKey, _)
      (by simp [sampleSpendDigests])
  rw [ZkNoteInputWitness.opening, h]
  rfl

theorem sampleInput_messages : sampleInput.messages noSignatures =
    [ownerMessage sampleInput.spendingPrivateKey, sampleNote.message,
      leafMessage sampleCommitment] := by
  rw [ZkNoteInputWitness.messages, sampleInput_opening]
  rfl

theorem sampleInput_valid : ValidInput noSignatures sampleRoot sampleInput where
  spendingPrivateKey := by decide
  note := by
    have h : deriveNoteRecipientPublicKey noSignatures sampleInput.spendingPrivateKey =
        sampleNote.recipientPublicKey := congrArg NoteOpening.recipientPublicKey sampleInput_opening
    rw [h, Note.new_eq_ok]
    refine ⟨by decide +kernel, ?_⟩
    exact (sampleSpendDigests_hash (sampleNote.message, sampleCommitment)
      (by simp [sampleSpendDigests])).symm
  root := sampleCommitment_root

theorem sampleOutput_note : Note.new noSignatures sampleOutput.value
    sampleOutput.recipientPublicKey sampleOutput.blinding = .ok ⟨sampleOutputCommitment⟩ := by
  rw [Note.new_eq_ok]
  refine ⟨by decide, ?_⟩
  exact (sampleSpendDigests_hash (sampleOutput.opening.message, sampleOutputCommitment)
    (by simp [sampleSpendDigests])).symm

/-- The note spent once or several times, for one new note; the rest is the fee. -/
theorem sampleTransfer_ok (n : ℕ) (fee : UInt64) (hn : 0 < n) (hlt : n * 7 < 2 ^ 64)
    (hfee : n * 7 = 7 + fee.toNat) :
    verifyZkTransferPublicInputs noSignatures ⟨sampleRoot, fee, [sampleOutputCommitment]⟩
      ⟨List.replicate n sampleInput, [sampleOutput]⟩ = .ok () := by
  have hsum : ((List.replicate n sampleInput).map fun i => i.value.toNat).sum = n * 7 := by
    simp [sampleInput]
  rw [verifyZkTransferPublicInputs_ok]
  refine ⟨?_, by simp, rfl, ?_, ?_, ?_, ?_⟩
  · simpa using Nat.pos_iff_ne_zero.mp hn
  · intro input hinput
    rw [List.eq_of_mem_replicate hinput]
    exact sampleInput_valid
  · intro index hindex
    obtain rfl : index = 0 := by simpa using hindex
    exact ⟨_, sampleOutput_note, rfl⟩
  · rw [hsum, hfee]
    rfl
  · rw [hsum]
    exact hlt

/-- **A note spent twice creates value**: the tree holds one note of value 7; a transfer that
consumes it twice pays out 7 and a fee of 7, and there is no collision. -/
theorem repeatedNote_creates_value :
    verifyZkTransferPublicInputs noSignatures ⟨sampleRoot, 7, [sampleOutputCommitment]⟩
        ⟨List.replicate 2 sampleInput, [sampleOutput]⟩ = .ok () ∧
      sampleRoot = NoteMerkleTree.root noSignatures ⟨noteCommitments noSignatures [sampleNote]⟩ ∧
      ¬ (([sampleOutput].map fun o => o.value.toNat).sum + (7 : UInt64).toNat ≤
          ([sampleNote].map fun n => n.value.toNat).sum ∨
        Collision noSignatures.sha256 (spendMessages noSignatures [sampleNote]
          ⟨List.replicate 2 sampleInput, [sampleOutput]⟩)) := by
  refine ⟨sampleTransfer_ok 2 7 (by decide) (by decide) (by decide), sampleTree_root.symm, ?_⟩
  rintro (hle | hcol)
  · exact absurd hle (by decide)
  · refine not_collision_of_table sampleSpendDigests sampleSpendDigests_hash (by decide +kernel)
      ?_ hcol
    simp [spendMessages, sampleNote_commitment, treeMessages, transferMessages,
      sampleInput_messages, Merkle.messages, List.replicate, sampleSpendDigests]

/-- A tree of three notes. The first two belong to the spending key `05..05`. -/
def sampleNotes : List NoteOpening :=
  [sampleNote, { sampleNote with value := 5, blinding := .replicate 32 8 },
    ⟨9, .replicate 32 4, .replicate 32 3⟩]

/-- A note of the first owner, with the proof that the tree makes for it. -/
theorem sampleNotes_input {i : ℕ} (hi : i < 2) : ∃ input : ZkNoteInputWitness,
    input.merkleProof.leafIndex = i ∧
      input.value = (sampleNotes.getD i sampleNote).value ∧
      input.merkleProof.leaf = (sampleNotes.getD i sampleNote).commitment noSignatures ∧
      ValidInput noSignatures
        (NoteMerkleTree.root noSignatures ⟨noteCommitments noSignatures sampleNotes⟩) input := by
  have hlt : i < (noteCommitments noSignatures sampleNotes).length := Nat.lt_succ_of_lt hi
  have hproof := NoteMerkleTree.generateProof_of_lt (P := noSignatures) hlt
  have hindex : i = 0 ∨ i = 1 := by omega
  have hleaf : (noteCommitments noSignatures sampleNotes)[i] =
      (sampleNotes.getD i sampleNote).commitment noSignatures := by
    rcases hindex with rfl | rfl <;> rfl
  have howner : (sampleNotes.getD i sampleNote).recipientPublicKey =
      sampleNote.recipientPublicKey := by
    rcases hindex with rfl | rfl <;> rfl
  have hvalid : (sampleNotes.getD i sampleNote).value ≠ 0 ∧
      (sampleNotes.getD i sampleNote).recipientPublicKey ≠ zeroBytes32 ∧
      (sampleNotes.getD i sampleNote).blinding ≠ zeroBytes32 := by
    rcases hindex with rfl | rfl <;> decide +kernel
  have hkey : deriveNoteRecipientPublicKey noSignatures (.replicate 32 5) =
      (sampleNotes.getD i sampleNote).recipientPublicKey :=
    (congrArg NoteOpening.recipientPublicKey sampleInput_opening).trans howner.symm
  have hspend : (.replicate 32 5 : Bytes32) ≠ zeroBytes32 := by decide
  refine ⟨⟨(sampleNotes.getD i sampleNote).value, .replicate 32 5,
    (sampleNotes.getD i sampleNote).blinding, _⟩, rfl, rfl, hleaf, hspend, ?_,
    root_of_generateProof hproof⟩
  rw [hkey, Note.new_eq_ok]
  exact ⟨hvalid, hleaf⟩

/-- Two notes of the tree are spent for a new note and a fee. -/
theorem twoNotes_value_le : ∃ witness : ZkTransferWitness,
    witness.inputs.map (fun i => i.merkleProof.leafIndex) = [0, 1] ∧
      verifyZkTransferPublicInputs noSignatures
        ⟨NoteMerkleTree.root noSignatures ⟨noteCommitments noSignatures sampleNotes⟩, 5,
          [sampleOutputCommitment]⟩ witness = .ok () ∧
      ((witness.outputs.map fun o => o.value.toNat).sum + (5 : UInt64).toNat ≤
          (sampleNotes.map fun n => n.value.toNat).sum ∨
        Collision noSignatures.sha256 (spendMessages noSignatures sampleNotes witness)) := by
  obtain ⟨first, hfirst, hvalue, hleaf, hvalid⟩ := sampleNotes_input (i := 0) (by decide)
  obtain ⟨second, hsecond, hvalue', hleaf', hvalid'⟩ := sampleNotes_input (i := 1) (by decide)
  have hok : verifyZkTransferPublicInputs noSignatures
      ⟨NoteMerkleTree.root noSignatures ⟨noteCommitments noSignatures sampleNotes⟩, 5,
        [sampleOutputCommitment]⟩ ⟨[first, second], [sampleOutput]⟩ = .ok () := by
    have hsum : (([first, second] : List ZkNoteInputWitness).map fun i => i.value.toNat).sum =
        12 := by
      rw [List.map_cons, List.map_singleton, hvalue, hvalue']
      rfl
    rw [verifyZkTransferPublicInputs_ok]
    refine ⟨by simp, by simp, rfl, ?_, fun index hindex => ?_, ?_, ?_⟩
    · intro input hinput
      rcases List.mem_pair.mp hinput with rfl | rfl
      · exact hvalid
      · exact hvalid'
    · obtain rfl : index = 0 := by simpa using hindex
      exact ⟨_, sampleOutput_note, rfl⟩
    · rw [hsum]
      rfl
    · rw [hsum]
      decide
  refine ⟨⟨[first, second], [sampleOutput]⟩, by simp [hfirst, hsecond], hok, ?_⟩
  refine transfer_value_le noSignatures sampleNotes _ _ rfl hok fun c _ => ?_
  have hleaves : ZkTransferWitness.leaves ⟨[first, second], [sampleOutput]⟩ <+:
      noteCommitments noSignatures sampleNotes := by
    rw [ZkTransferWitness.leaves, List.map_cons, List.map_singleton, hleaf, hleaf']
    exact ⟨[_], rfl⟩
  exact hleaves.sublist.count_le c

end Prims
