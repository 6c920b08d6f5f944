import Prims.Privacy.Completeness
import Prims.Privacy.Conversion
import Prims.Privacy.Roots

/-!
# Spending notes of a tree

Who owns notes of a tree spends them with the proofs that the tree makes. What such a transfer
needs is what one expects of money: there are inputs and outputs, the notes are in the tree and have
keys and values, and the values balance in 64 bits. Nothing else is needed, so every deposit can be
paid out, and what is paid out can be spent again.

## Main definitions

* `OwnedNote`, `OwnedNote.input`: a note with its spending key, and the input that consumes it
* `PaysOut`: what a transfer of owned notes needs

## Main results

* `owned_notes_spendable_iff`: the transfers of owned notes that verify
* `deposit_spendable`, `PaysOut.output_spendable`: deposits and outputs can be spent by their owners
-/

namespace Prims

open Circuit

/-- A note whose opening and spending key are known. -/
structure OwnedNote where
  value : UInt64
  spendingPrivateKey : Bytes32
  blinding : Bytes32

section Spending

variable (P : Primitives)

def OwnedNote.opening (note : OwnedNote) : NoteOpening where
  value := note.value
  recipientPublicKey := deriveNoteRecipientPublicKey P note.spendingPrivateKey
  blinding := note.blinding

/-- The input that consumes a note, with the proof that the tree makes for its place. -/
def OwnedNote.input (tree : NoteMerkleTree) (note : OwnedNote) :
    Except NoteMerkleTreeError ZkNoteInputWitness := do
  let merkleProof ← tree.generateProof P (tree.leaves.idxOf (note.opening P |>.commitment P))
  return ⟨note.value, note.spendingPrivateKey, note.blinding, merkleProof⟩

/-- The public inputs of a transfer from a tree to some outputs. -/
def payment (tree : NoteMerkleTree) (outputs : List ZkNoteOutputWitness) (fee : UInt64) :
    ZkTransferPublicInputs where
  merkleRoot := tree.root P
  fee
  outputCommitments := outputs.map fun output => output.opening.commitment P

/-- An opening that a note can be made of. -/
def NoteOpening.Valid (o : NoteOpening) : Prop :=
  o.value ≠ 0 ∧ o.recipientPublicKey ≠ zeroBytes32 ∧ o.blinding ≠ zeroBytes32

/-- The note is in the tree, and can be spent. -/
structure OwnedNote.Spendable (tree : NoteMerkleTree) (note : OwnedNote) : Prop where
  key : note.spendingPrivateKey ≠ zeroBytes32
  valid : (note.opening P).Valid
  mem : (note.opening P).commitment P ∈ tree.leaves

/-- **What a transfer needs**: notes of the tree on one side and notes that can be made on the
other, with balanced values. -/
structure PaysOut (tree : NoteMerkleTree) (notes : List OwnedNote)
    (outputs : List ZkNoteOutputWitness) (fee : UInt64) : Prop where
  notes_ne_nil : notes ≠ []
  outputs_ne_nil : outputs ≠ []
  spendable : ∀ note ∈ notes, note.Spendable P tree
  valid : ∀ output ∈ outputs, output.opening.Valid
  balance : (notes.map fun note => note.value.toNat).sum =
    (outputs.map fun output => output.value.toNat).sum + fee.toNat
  total_lt : (notes.map fun note => note.value.toNat).sum < 2 ^ 64

variable {P}

/-- There is an input for a note of the tree, and for no other. -/
theorem OwnedNote.input_eq_ok {tree : NoteMerkleTree} {note : OwnedNote}
    {input : ZkNoteInputWitness} (h : note.input P tree = .ok input) :
    (note.opening P).commitment P ∈ tree.leaves ∧ input.value = note.value ∧
      input.spendingPrivateKey = note.spendingPrivateKey ∧ input.blinding = note.blinding ∧
      input.merkleProof.leaf = (note.opening P).commitment P ∧
      computeNoteMerkleRootFromProof P input.merkleProof = tree.root P := by
  obtain ⟨proof, hproof, hinput⟩ := Except.bind_eq_ok.mp h
  obtain rfl := Except.ok.inj hinput
  have hroot := root_of_generateProof hproof
  rw [NoteMerkleTree.generateProof] at hproof
  split at hproof
  · next hindex =>
    obtain rfl := Except.ok.inj hproof
    exact ⟨List.idxOf_lt_length_iff.mp hindex, rfl, rfl, rfl, List.getElem_idxOf hindex, hroot⟩
  · cases hproof

theorem OwnedNote.exists_input {tree : NoteMerkleTree} {note : OwnedNote}
    (h : (note.opening P).commitment P ∈ tree.leaves) :
    ∃ input, note.input P tree = .ok input := by
  have hproof := NoteMerkleTree.generateProof_of_lt (P := P) (List.idxOf_lt_length_iff.mpr h)
  exact ⟨_, Except.bind_eq_ok.mpr ⟨_, hproof, rfl⟩⟩

/-- The input of a note is valid when the note can be spent. -/
theorem OwnedNote.validInput_iff {tree : NoteMerkleTree} {note : OwnedNote}
    {input : ZkNoteInputWitness} (h : note.input P tree = .ok input) :
    ValidInput P (tree.root P) input ↔ note.Spendable P tree := by
  obtain ⟨hmem, hvalue, hkey, hblinding, hleaf, hroot⟩ := input_eq_ok h
  constructor
  · rintro ⟨hne, hnote, -⟩
    rw [hvalue, hkey, hblinding] at hnote
    exact ⟨hkey ▸ hne, (Note.new_eq_ok.mp hnote).1, hmem⟩
  · rintro ⟨hne, hvalid, -⟩
    refine ⟨hkey ▸ hne, ?_, hroot⟩
    rw [hvalue, hkey, hblinding, Note.new_eq_ok, hleaf]
    exact ⟨hvalid, rfl⟩

/-- The outputs of a payment have their commitments. -/
theorem payment_outputs_iff {tree : NoteMerkleTree} {outputs : List ZkNoteOutputWitness}
    {fee : UInt64} :
    (∀ index (h : index < outputs.length),
      ∃ note, Note.new P outputs[index].value outputs[index].recipientPublicKey
          outputs[index].blinding = .ok note ∧
        (payment P tree outputs fee).outputCommitments[index]? = some note.commitment) ↔
      ∀ output ∈ outputs, output.opening.Valid := by
  constructor
  · intro h output houtput
    obtain ⟨index, hindex, rfl⟩ := List.mem_iff_getElem.mp houtput
    obtain ⟨note, hnote, -⟩ := h index hindex
    exact (Note.new_eq_ok.mp hnote).1
  · intro h index hindex
    have hnote : Note.new P outputs[index].value outputs[index].recipientPublicKey
        outputs[index].blinding = .ok ⟨outputs[index].opening.commitment P⟩ :=
      Note.new_eq_ok.mpr ⟨h _ (List.getElem_mem hindex), rfl⟩
    refine ⟨_, hnote, ?_⟩
    simp [payment, hindex]

/-- The inputs of some notes have their values, and are valid when the notes can be spent. -/
theorem inputs_of_notes {tree : NoteMerkleTree} {notes : List OwnedNote}
    {inputs : List ZkNoteInputWitness}
    (h : List.Forall₂ (fun note input => note.input P tree = .ok input) notes inputs) :
    (inputs = [] ↔ notes = []) ∧
      (inputs.map fun input => input.value.toNat) = (notes.map fun note => note.value.toNat) ∧
      ((∀ input ∈ inputs, ValidInput P (tree.root P) input) ↔
        ∀ note ∈ notes, note.Spendable P tree) := by
  induction h with
  | nil => simp
  | cons hinput _ ih =>
    obtain ⟨-, hvalue, -⟩ := OwnedNote.input_eq_ok hinput
    simp [ih, hvalue, OwnedNote.validInput_iff hinput]

/-- **The transfers of owned notes that verify**: with the proofs that the tree makes, those that
spend notes of the tree and create notes that can be made, with balanced values. -/
theorem owned_notes_spendable_iff (P : Primitives) (tree : NoteMerkleTree)
    (notes : List OwnedNote) (outputs : List ZkNoteOutputWitness) (fee : UInt64) :
    (∃ inputs, notes.mapM (OwnedNote.input P tree) = .ok inputs ∧
      verifyZkTransferPublicInputs P (payment P tree outputs fee) ⟨inputs, outputs⟩ = .ok ()) ↔
      PaysOut P tree notes outputs fee := by
  constructor
  · rintro ⟨inputs, hinputs, hverify⟩
    have htransfer := verifyZkTransferPublicInputs_ok.mp hverify
    obtain ⟨hnil, hvalues, hvalid⟩ := inputs_of_notes (mapM_eq_ok.mp hinputs)
    exact {
      notes_ne_nil := fun hnotes => htransfer.inputs_ne_nil (hnil.mpr hnotes)
      outputs_ne_nil := htransfer.outputs_ne_nil
      spendable := hvalid.mp htransfer.inputs
      valid := payment_outputs_iff.mp htransfer.outputs
      balance := hvalues ▸ htransfer.balance
      total_lt := hvalues ▸ htransfer.total_lt }
  · intro h
    have hexists : ∀ note ∈ notes, ∃ input, note.input P tree = .ok input :=
      fun note hnote => OwnedNote.exists_input (h.spendable note hnote).mem
    obtain ⟨inputs, hinputs⟩ := exists_forall₂ hexists
    obtain ⟨hnil, hvalues, hvalid⟩ := inputs_of_notes hinputs
    refine ⟨inputs, mapM_eq_ok.mpr hinputs, verifyZkTransferPublicInputs_ok.mpr ?_⟩
    exact {
      inputs_ne_nil := fun hinputs => h.notes_ne_nil (hnil.mp hinputs)
      outputs_ne_nil := h.outputs_ne_nil
      length_eq := by simp [payment]
      inputs := hvalid.mpr h.spendable
      outputs := payment_outputs_iff.mpr h.valid
      balance := hvalues ▸ h.balance
      total_lt := hvalues ▸ h.total_lt }

/-! ## Notes that come and go -/

/-- A note stays spendable while the tree grows. -/
theorem OwnedNote.Spendable.mono {tree tree' : NoteMerkleTree} {note : OwnedNote}
    (h : note.Spendable P tree) (hgrows : tree.leaves ⊆ tree'.leaves) : note.Spendable P tree' :=
  ⟨h.key, h.valid, hgrows h.mem⟩

/-- **A deposit can be spent** by who knows the key that it was made for, in every tree that has
its commitment. -/
theorem deposit_spendable {account : Account} {request : PublicToAnonRequest}
    {existing : List Bytes32} {result : PublicToAnonConversion} {tree : NoteMerkleTree}
    {spendingPrivateKey : Bytes32} (hkey : spendingPrivateKey ≠ zeroBytes32)
    (howner : request.recipientPublicKey = deriveNoteRecipientPublicKey P spendingPrivateKey)
    (h : convertPublicToAnon P account request existing = .ok result)
    (hmem : result.viewableNote.note.commitment ∈ tree.leaves) :
    OwnedNote.Spendable P tree ⟨request.amount, spendingPrivateKey, request.blinding⟩ := by
  obtain ⟨-, hnote, -⟩ := convertPublicToAnon_eq_ok h
  obtain ⟨hvalid, hcommitment⟩ := Note.new_eq_ok.mp hnote
  rw [howner] at hvalid hcommitment
  exact ⟨hkey, hvalid, hcommitment ▸ hmem⟩

/-- **What is paid out can be spent** by its owner, once its commitments are in the tree. -/
theorem PaysOut.output_spendable {tree tree' : NoteMerkleTree} {notes : List OwnedNote}
    {outputs : List ZkNoteOutputWitness} {fee : UInt64} (h : PaysOut P tree notes outputs fee)
    {output : ZkNoteOutputWitness} (houtput : output ∈ outputs)
    {spendingPrivateKey : Bytes32} (hkey : spendingPrivateKey ≠ zeroBytes32)
    (howner : output.recipientPublicKey = deriveNoteRecipientPublicKey P spendingPrivateKey)
    (hgrows : (payment P tree outputs fee).outputCommitments ⊆ tree'.leaves) :
    OwnedNote.Spendable P tree' ⟨output.value, spendingPrivateKey, output.blinding⟩ := by
  have hvalid := h.valid output houtput
  have hmem : output.opening.commitment P ∈ tree'.leaves :=
    hgrows (List.mem_map_of_mem houtput)
  rw [ZkNoteOutputWitness.opening, howner] at hvalid hmem
  exact ⟨hkey, hvalid, hmem⟩

end Spending

end Prims
