import Prims.Lib.Synthesis
import Prims.Privacy.Circuit

/-!
# Completeness of the transfer circuit

The circuit computes again, over its variables, what the native verification computes: the keys,
the commitments, the paths and the sums. Each gadget is worth what the native function returns, so
a transfer that the verification accepts gives its variables values that solve every equation. The
circuit adds modulo `2 ^ 64`, which changes nothing: the totals of a valid transfer fit in 64 bits.

## Main results

* `ZkTransferCircuit.complete_synthesizePath`: the path of an input is worth the root of its proof
* `circuit_complete`: the circuit of a valid transfer is synthesized, and satisfied
-/

namespace Prims

open Bincode Circuit

namespace ZkTransferCircuit

variable {P : Primitives} {cs : ConstraintSystem}

/-! ## Gadgets -/

theorem reads_deriveRecipientPublicKeyVar {x : BytesVar} {spendingPrivateKey : Bytes32}
    (hx : x.Reads P.sha256 cs spendingPrivateKey.toList) :
    (deriveRecipientPublicKeyVar x).Reads P.sha256 cs
      (deriveNoteRecipientPublicKey P spendingPrivateKey).toList :=
  ((BytesVar.Reads.constant _).append hx).digest

theorem reads_noteCommitmentVar {v r b : BytesVar} {o : NoteOpening}
    (hv : v.Reads P.sha256 cs (leBytes 8 o.value.toNat))
    (hr : r.Reads P.sha256 cs o.recipientPublicKey.toList)
    (hb : b.Reads P.sha256 cs o.blinding.toList) :
    (noteCommitmentVar v r b).Reads P.sha256 cs (o.commitment P).toList :=
  ((hv.append hr).append hb).digest

theorem reads_merkleLeafHashVar {x : BytesVar} {commitment : Bytes32}
    (hx : x.Reads P.sha256 cs commitment.toList) :
    (merkleLeafHashVar x).Reads P.sha256 cs (NoteMerkleTree.hashLeaf P commitment).toList :=
  ((BytesVar.Reads.constant _).append hx).digest

theorem reads_merkleInternalHashVar {x y : BytesVar} {left right : Bytes32}
    (hx : x.Reads P.sha256 cs left.toList) (hy : y.Reads P.sha256 cs right.toList) :
    (merkleInternalHashVar x y).Reads P.sha256 cs (P.sha256 (nodeMessage left right)).toList :=
  (((BytesVar.Reads.constant _).append hx).append hy).digest

/-! ## Steps -/

/-- **The path** of an input is worth the end of the native path. -/
theorem complete_synthesizePath {current : BytesVar} {hash : Bytes32}
    (h : current.Reads P.sha256 cs hash.toList) (index : ℕ) (siblings : List Bytes32) :
    Complete P.sha256 cs (synthesizePath current index siblings) fun x cs' =>
      x.Reads P.sha256 cs' (Merkle.climb P.sha256 nodeMessage hash index siblings).toList := by
  induction siblings generalizing cs current hash index with
  | nil => exact .pure h
  | cons sibling siblings ih =>
    refine (Complete.newWitness _).bind fun x cs' hgrows hx => ?_
    rw [Merkle.climb_cons]
    -- the parity of the index orders the children in the same way on both sides
    refine ih ?_ (index / 2)
    split
    · exact reads_merkleInternalHashVar (h.mono hgrows) hx
    · exact reads_merkleInternalHashVar hx (h.mono hgrows)

theorem complete_synthesizeInput {rootVar : BytesVar} {merkleRoot : Bytes32}
    {input : ZkNoteInputWitness} (hroot : rootVar.Reads P.sha256 cs merkleRoot.toList)
    (hvalid : ValidInput P merkleRoot input) :
    Complete P.sha256 cs (synthesizeInput rootVar input) fun x cs' =>
      x.Reads P.sha256 cs' input.value := by
  refine (Complete.newWitness _).bind fun v cs₁ h₁ hv => ?_
  refine (Complete.newWitness _).bind fun k cs₂ h₂ hk => ?_
  refine (Complete.newWitness _).bind fun b cs₃ h₃ hb => ?_
  refine (Complete.newWitness _).bind fun leaf cs₄ h₄ hleaf => ?_
  have hv₄ := hv.mono (h₂.trans (h₃.trans h₄))
  have hk₄ := reads_deriveRecipientPublicKeyVar (hk.mono (h₃.trans h₄))
  have hcommitment : (noteCommitmentVar v (deriveRecipientPublicKeyVar k) b).Reads P.sha256 cs₄
      input.merkleProof.leaf.toList := by
    rw [hvalid.leaf_eq]
    exact reads_noteCommitmentVar (o := input.opening P) hv₄ hk₄ (hb.mono h₄)
  refine (Complete.enforce_equalBytes hcommitment hleaf).bind fun _ cs₅ h₅ _ => ?_
  have hstart := reads_merkleLeafHashVar (hleaf.mono h₅)
  refine (complete_synthesizePath hstart _ _).bind fun x cs₆ h₆ hx => ?_
  have hgrows : cs.Grows cs₆ := h₁.trans (h₂.trans (h₃.trans (h₄.trans (h₅.trans h₆))))
  rw [← hvalid.root] at hroot
  refine (Complete.enforce_equalBytes hx (hroot.mono hgrows)).bind fun _ cs₇ h₇ _ => .pure ?_
  exact .ofBytes (hv₄.mono (h₅.trans (h₆.trans h₇)))

theorem complete_synthesizeOutput {output : ZkNoteOutputWitness} {commitment : Bytes32}
    (h : commitment = output.opening.commitment P) :
    Complete P.sha256 cs (synthesizeOutput output commitment) fun x cs' =>
      x.Reads P.sha256 cs' output.value := by
  refine (Complete.newWitness _).bind fun v cs₁ _ hv => ?_
  refine (Complete.newWitness _).bind fun r cs₂ h₂ hr => ?_
  refine (Complete.newWitness _).bind fun b cs₃ h₃ hb => ?_
  have hcommitment := reads_noteCommitmentVar (o := output.opening) (hv.mono (h₂.trans h₃))
    (hr.mono h₃) hb
  refine (Complete.newInput _).bind fun x cs₄ h₄ hx => ?_
  rw [h] at hx
  refine (Complete.enforce_equalBytes (hcommitment.mono h₄) hx).bind fun _ cs₅ h₅ _ => .pure ?_
  exact .ofBytes (hv.mono (h₂.trans (h₃.trans (h₄.trans h₅))))

end ZkTransferCircuit

/-! ## The circuit of a valid transfer -/

open ZkTransferCircuit

variable {P : Primitives}

/-- Each output of a valid transfer goes with the commitment of its note. -/
theorem ValidTransfer.commitment_eq {publicInputs : ZkTransferPublicInputs}
    {witness : ZkTransferWitness} (h : ValidTransfer P publicInputs witness)
    {entry : ZkNoteOutputWitness × Bytes32}
    (hentry : entry ∈ witness.outputs.zip publicInputs.outputCommitments) :
    entry.2 = entry.1.opening.commitment P := by
  obtain ⟨index, hindex, rfl⟩ := List.mem_iff_getElem.mp hentry
  rw [List.length_zip, Nat.lt_min] at hindex
  obtain ⟨note, hnote, hcommitment⟩ := h.outputs index hindex.1
  rw [List.getElem?_eq_getElem hindex.2, Option.some.injEq] at hcommitment
  rw [List.getElem_zip]
  exact hcommitment.trans (Note.new_eq_ok.mp hnote).2

/-- The outputs that go with a commitment are all the outputs. -/
theorem ValidTransfer.map_zip_value {publicInputs : ZkTransferPublicInputs}
    {witness : ZkTransferWitness} (h : ValidTransfer P publicInputs witness) :
    ((witness.outputs.zip publicInputs.outputCommitments).map fun entry => entry.1.value.toNat) =
      witness.outputs.map fun output => output.value.toNat := by
  have hfst := List.map_fst_zip h.length_eq.le
  conv_rhs => rw [← hfst, List.map_map]
  rfl

/-- The balance of a valid transfer, as words: nothing overflows. -/
theorem ValidTransfer.balance_word {publicInputs : ZkTransferPublicInputs}
    {witness : ZkTransferWitness} (h : ValidTransfer P publicInputs witness) :
    UInt64.ofNat (witness.inputs.map fun i => i.value.toNat).sum =
      UInt64.ofNat (([UInt64.ofNat (witness.outputs.map fun o => o.value.toNat).sum,
        publicInputs.fee].map UInt64.toNat).sum) := by
  have hbalance := h.balance
  have hlt := h.total_lt
  rw [List.map_cons, List.map_singleton, List.sum_cons, List.sum_singleton, UInt64.toNat_ofNat',
    Nat.mod_eq_of_lt (by omega), hbalance]

/-- The values of a valid transfer solve the equations of its circuit. -/
theorem complete_synthesize {circuit : ZkTransferCircuit}
    (h : ValidTransfer P circuit.publicInputs circuit.witness) :
    Complete P.sha256 {} circuit.synthesize fun _ _ => True := by
  refine (Complete.newInput _).bind fun root cs₁ _ hroot => ?_
  refine (Complete.newInput _).bind fun fee cs₂ h₂ hfee => ?_
  have hinputs : ∀ input ∈ circuit.witness.inputs, ∀ cs, cs₂.Grows cs →
      Complete P.sha256 cs (synthesizeInput root input) fun x cs' =>
        x.Reads P.sha256 cs' input.value := by
    intro input hinput cs hcs
    exact complete_synthesizeInput (hroot.mono (h₂.trans hcs)) (h.inputs input hinput)
  refine (Complete.mapM (fun _ _ _ _ hgrows hx => hx.mono hgrows) _ hinputs).bind
    fun inputs cs₃ h₃ hin => ?_
  have houtputs : ∀ entry ∈ circuit.witness.outputs.zip circuit.publicInputs.outputCommitments,
      ∀ cs, cs₃.Grows cs → Complete P.sha256 cs (synthesizeOutput entry.1 entry.2) fun x cs' =>
        x.Reads P.sha256 cs' entry.1.value :=
    fun entry hentry cs _ => complete_synthesizeOutput (h.commitment_eq hentry)
  refine (Complete.mapM (fun _ _ _ _ hgrows hx => hx.mono hgrows) _ houtputs).bind
    fun outputs cs₄ h₄ hout => ?_
  have htotalInputs := (UInt64Var.Reads.wrappingAddMany hin).mono h₄
  have htotalOutputs := UInt64Var.Reads.wrappingAddMany hout
  rw [h.map_zip_value] at htotalOutputs
  have hfee₄ : (UInt64Var.ofBytes fee).Reads P.sha256 cs₄ circuit.publicInputs.fee :=
    .ofBytes (hfee.mono (h₃.trans h₄))
  have hoperands : List.Forall₂ (fun word x => UInt64Var.Reads P.sha256 cs₄ x word)
      [.ofNat (circuit.witness.outputs.map fun o => o.value.toNat).sum, circuit.publicInputs.fee]
      [wrappingAddMany outputs, .ofBytes fee] :=
    .cons htotalOutputs (.cons hfee₄ .nil)
  have hexpected := UInt64Var.Reads.wrappingAddMany hoperands
  rw [h.balance_word] at htotalInputs
  exact (Complete.enforce_equalUInt64 htotalInputs hexpected).bind fun _ _ _ _ => .pure trivial

/-- **Completeness**: the circuit of a transfer that the native verification accepts is
synthesized, and the values given to its variables satisfy every equation. -/
theorem circuit_complete (P : Primitives) (circuit : ZkTransferCircuit)
    (h : verifyZkTransferPublicInputs P circuit.publicInputs circuit.witness = .ok ()) :
    ∃ cs : ConstraintSystem, generateConstraints P circuit = .ok cs ∧
      cs.assignment.Satisfies P.sha256 cs :=
  ⟨circuit.constraintSystem, generateConstraints_of_verify h,
    (complete_synthesize (verifyZkTransferPublicInputs_ok.mp h)).satisfies⟩

/-! ## Two notes of one value -/

/-- The commitments of two notes of value 70, and the digests of their leaves. -/
def firstCommitment : Bytes32 :=
  beVector 32 0x2fbcc62c08e87f689dad88fca2436e434d88f237fa4236bf1189d91e7472b327

def secondCommitment : Bytes32 :=
  beVector 32 0x468bf0c856b25a229c68b1a3592a3275a6b8a5506bfed81f0dca9472cebec7f8

def firstLeaf : Bytes32 :=
  beVector 32 0x0202d4e3407f1bb6f3b4a45949e1c8262b7894e5ce3813ebc12f27b67a178c99

def secondLeaf : Bytes32 :=
  beVector 32 0x0e43ecea167141008775ac4cb5b1c03ba3c73ed615b443176d7ae1ebfbe7f2c8

/-- The public inputs are the same whichever of the two notes is spent. -/
def spendInputs : ZkTransferPublicInputs where
  merkleRoot := beVector 32 0xc3f66ba451dced5aa90d934d41ddd2110670639ddb8ac8bfd1e07f5731ecc351
  fee := 5
  outputCommitments :=
    [beVector 32 0x085f2641c3ddc668ec3d137b88d91d24fe3d655aac25a54a4f0f2ce61b821944,
      beVector 32 0x8b6ae5272e813402eb4bcc7d327777f3dfb987034b52a5aa5dd1b79914bfebac]

def spendOutputs : List ZkNoteOutputWitness :=
  [⟨40, .replicate 32 91, .replicate 32 92⟩, ⟨25, .replicate 32 93, .replicate 32 94⟩]

/-- A transfer that spends the first note. -/
def spendFirst : ZkTransferCircuit where
  publicInputs := spendInputs
  witness := ⟨[⟨70, .replicate 32 87, .replicate 32 89, 0, firstCommitment, [secondLeaf]⟩],
    spendOutputs⟩

/-- A transfer that spends the second note. -/
def spendSecond : ZkTransferCircuit where
  publicInputs := spendInputs
  witness := ⟨[⟨70, .replicate 32 88, .replicate 32 90, 1, secondCommitment, [firstLeaf]⟩],
    spendOutputs⟩

theorem verify_spends : ∀ circuit ∈ [spendFirst, spendSecond],
    verifyZkTransferPublicInputs noSignatures circuit.publicInputs circuit.witness = .ok () := by
  decide +kernel

/-- The circuit of the second note is satisfied. -/
theorem spendSecond_complete :
    ∃ cs : ConstraintSystem, generateConstraints noSignatures spendSecond = .ok cs ∧
      cs.assignment.Satisfies noSignatures.sha256 cs :=
  circuit_complete noSignatures spendSecond (verify_spends spendSecond (by simp))

end Prims
