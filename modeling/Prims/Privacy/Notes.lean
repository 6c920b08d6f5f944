import Prims.Crypto
import Prims.Lib.Merkle

/-!
# Anonymous notes

The notes of `privacy/mod.rs` and the Merkle tree over them. A note is the commitment to a value,
the public key of its recipient and a blinding factor; the three have fixed widths, so a
commitment has one opening unless there is a collision. The tree hashes leaves, inner nodes and
the empty tree under three different prefixes, so a path to the root starts at a leaf of the tree
unless there is a collision.

## Main definitions

* `NoteOpening`, `Note.new`, `ViewableNote.new`: notes and their openings
* `NoteMerkleTree.root`, `NoteMerkleTree.generateProof`, `NoteMerkleTree.verifyProof`,
  `computeNoteMerkleRootFromProof`: the tree and the proofs of membership
* `treeMessages`, `proofMessages`: what the tree and a proof hash
* `noteValue`: the value behind a commitment

## Main results

* `NoteOpening.message_injective`: a commitment message has one opening
* `root_of_generateProof`: a proof that the tree made is for its root
* `leaf_mem_of_root_eq`: a proof for the root of a tree is for one of its leaves
-/

namespace Prims

open Bincode

/-! ## Notes -/

/-- What a note commits to. -/
structure NoteOpening where
  value : UInt64
  recipientPublicKey : Bytes32
  blinding : Bytes32
  deriving DecidableEq

/-- The bytes that a commitment hashes. -/
def NoteOpening.message (o : NoteOpening) : Bytes :=
  leBytes 8 o.value.toNat ++ o.recipientPublicKey.toList ++ o.blinding.toList

/-- **A commitment message has one opening.** -/
theorem NoteOpening.message_injective : Function.Injective NoteOpening.message := by
  rintro ⟨v, r, b⟩ ⟨v', r', b'⟩ h
  simp only [message, List.append_assoc] at h
  obtain ⟨hv, h⟩ := List.append_inj h (by simp)
  obtain ⟨hr, hb⟩ := List.append_inj h (by simp)
  have hvalue : v = v' := UInt64.toNat_inj.mp ((leBytes_inj v.toNat_lt v'.toNat_lt).mp hv)
  rw [hvalue, Subtype.ext hr, Subtype.ext hb]

/-- The zero array, which is no key and no blinding factor. -/
def zeroBytes32 : Bytes32 := .replicate 32 0

/-- The reasons a note is not made. -/
inductive NoteError where
  | zeroValue
  | invalidRecipientPublicKey
  | invalidBlinding
  | invalidViewingKey
  deriving DecidableEq, Repr

/-- The text of the error, which the conversions carry on. -/
def NoteError.toString : NoteError → String
  | .zeroValue => "note value must be strictly positive"
  | .invalidRecipientPublicKey => "note recipient public key must not be all zeros"
  | .invalidBlinding => "note blinding factor must not be all zeros"
  | .invalidViewingKey => "note viewing key must not be all zeros"

/-- A note keeps the commitment only. -/
structure Note where
  commitment : Bytes32
  deriving DecidableEq

/-- A note that can be found with its viewing key. -/
structure ViewableNote where
  note : Note
  viewingHint : Bytes32
  shardId : UInt16
  deriving DecidableEq

section Notes

variable (P : Primitives)

def NoteOpening.commitment (o : NoteOpening) : Bytes32 := P.sha256 o.message

def Note.computeCommitment (value : UInt64) (recipientPublicKey blinding : Bytes32) : Bytes32 :=
  NoteOpening.commitment P ⟨value, recipientPublicKey, blinding⟩

def Note.new (value : UInt64) (recipientPublicKey blinding : Bytes32) : Except NoteError Note :=
  if value = 0 then .error .zeroValue
  else if recipientPublicKey = zeroBytes32 then .error .invalidRecipientPublicKey
  else if blinding = zeroBytes32 then .error .invalidBlinding
  else .ok ⟨Note.computeCommitment P value recipientPublicKey blinding⟩

def ViewableNote.computeViewingHint (viewingKey : Bytes32) : Option Bytes32 :=
  if viewingKey = zeroBytes32 then none
  else some (P.sha256 (utf8 "prims-viewing-key" ++ viewingKey.toList))

def ViewableNote.fromNote (note : Note) (viewingKey : Bytes32) (shardId : UInt16) :
    Except NoteError ViewableNote :=
  match ViewableNote.computeViewingHint P viewingKey with
  | none => .error .invalidViewingKey
  | some viewingHint => .ok ⟨note, viewingHint, shardId⟩

def ViewableNote.new (value : UInt64) (recipientPublicKey viewingKey blinding : Bytes32)
    (shardId : UInt16) : Except NoteError ViewableNote := do
  let note ← Note.new P value recipientPublicKey blinding
  ViewableNote.fromNote P note viewingKey shardId

def ViewableNote.isVisibleTo (note : ViewableNote) (viewingKey : Bytes32) : Bool :=
  ((ViewableNote.computeViewingHint P viewingKey).map fun viewingHint =>
    decide (viewingHint = note.viewingHint)).getD false

/-- The bytes that the recipient's public key hashes. -/
def ownerMessage (spendingPrivateKey : Bytes32) : Bytes :=
  utf8 "prims-note-owner" ++ spendingPrivateKey.toList

def deriveNoteRecipientPublicKey (spendingPrivateKey : Bytes32) : Bytes32 :=
  P.sha256 (ownerMessage spendingPrivateKey)

variable {P}

/-- The value of a commitment, by the openings that are known. -/
def noteValue (P : Primitives) (openings : List NoteOpening) (commitment : Bytes32) : ℕ :=
  ((openings.find? fun o => o.commitment P = commitment).map fun o => o.value.toNat).getD 0

/-- Without a collision, a commitment with a known opening has the value of every opening. -/
theorem noteValue_commitment {openings : List NoteOpening} {hashed : List Bytes}
    (hcol : ¬ Collision P.sha256 hashed) (hsub : openings.map NoteOpening.message ⊆ hashed)
    {o : NoteOpening} (ho : o.message ∈ hashed)
    (hmem : o.commitment P ∈ openings.map (NoteOpening.commitment P)) :
    noteValue P openings (o.commitment P) = o.value.toNat := by
  unfold noteValue
  cases hf : openings.find? fun o' => o'.commitment P = o.commitment P with
  | none =>
    obtain ⟨o', ho', heq⟩ := List.mem_map.mp hmem
    have := List.find?_eq_none.mp hf o' ho'
    simp [heq] at this
  | some found =>
    have heq : found.commitment P = o.commitment P := by
      simpa using List.find?_some hf
    have hfound := hsub (List.mem_map_of_mem (List.mem_of_find?_eq_some hf))
    rw [NoteOpening.message_injective (eq_of_hash_eq hcol hfound ho heq)]
    rfl

/-- A note that was made has a positive value, and is the commitment of its opening. -/
theorem Note.new_eq_ok {value : UInt64} {recipientPublicKey blinding : Bytes32} {note : Note} :
    Note.new P value recipientPublicKey blinding = .ok note ↔
      (value ≠ 0 ∧ recipientPublicKey ≠ zeroBytes32 ∧ blinding ≠ zeroBytes32) ∧
        note.commitment = NoteOpening.commitment P ⟨value, recipientPublicKey, blinding⟩ := by
  unfold Note.new
  obtain ⟨commitment⟩ := note
  by_cases hv : value = 0
  · simp [hv]
  · by_cases hr : recipientPublicKey = zeroBytes32
    · simp [hv, hr]
    · by_cases hb : blinding = zeroBytes32
      · simp [hv, hr, hb]
      · simp [hv, hr, hb, Note.computeCommitment, eq_comm]

/-- A viewable note is a note with the hint of its viewing key. -/
theorem ViewableNote.new_eq_ok {value : UInt64} {recipientPublicKey viewingKey blinding : Bytes32}
    {shardId : UInt16} {note : ViewableNote}
    (h : ViewableNote.new P value recipientPublicKey viewingKey blinding shardId = .ok note) :
    Note.new P value recipientPublicKey blinding = .ok note.note ∧
      ViewableNote.computeViewingHint P viewingKey = some note.viewingHint := by
  unfold ViewableNote.new at h
  cases hn : Note.new P value recipientPublicKey blinding with
  | error e => simp [hn, bind, Except.bind] at h
  | ok made =>
    simp only [hn, bind, Except.bind, ViewableNote.fromNote] at h
    split at h
    · cases h
    · next hint hhint =>
      cases h
      exact ⟨rfl, hhint⟩

end Notes

/-! ## The tree of notes -/

/-- A proof that a commitment is a leaf of the tree. -/
structure NoteMerkleProof where
  leafIndex : ℕ
  leaf : Bytes32
  siblings : List Bytes32
  deriving DecidableEq

structure NoteMerkleTree where
  leaves : List Bytes32

/-- The reason a proof is not made. -/
inductive NoteMerkleTreeError where
  | leafIndexOutOfBounds (leafIndex leafCount : ℕ)
  deriving DecidableEq, Repr

def NoteMerkleTree.fromNotes (notes : List Note) : NoteMerkleTree :=
  ⟨notes.map Note.commitment⟩

/-- The message of the empty tree. -/
def emptyTreeMessage : Bytes := utf8 "prims-note-merkle-empty"

/-- The message of a leaf. -/
def leafMessage (commitment : Bytes32) : Bytes :=
  utf8 "prims-note-merkle-leaf" ++ commitment.toList

/-- The message of an inner node. -/
def nodeMessage (left right : Bytes32) : Bytes :=
  utf8 "prims-note-merkle-node" ++ left.toList ++ right.toList

theorem leafMessage_injective : Function.Injective leafMessage := by
  intro c c' h
  exact Subtype.ext (List.append_cancel_left h)

theorem nodeMessage_injective : Function.Injective2 nodeMessage := by
  intro l l' r r' h
  rw [nodeMessage, nodeMessage, List.append_assoc, List.append_assoc] at h
  obtain ⟨hl, hr⟩ := List.append_inj (List.append_cancel_left h) (by simp)
  exact ⟨Subtype.ext hl, Subtype.ext hr⟩

theorem length_emptyTreeMessage : emptyTreeMessage.length = 23 := by decide

theorem length_leafMessage (c : Bytes32) : (leafMessage c).length = 54 := by
  have h : (utf8 "prims-note-merkle-leaf").length = 22 := by decide
  rw [leafMessage, List.length_append, h, c.toList_length]

theorem length_nodeMessage (l r : Bytes32) : (nodeMessage l r).length = 86 := by
  have h : (utf8 "prims-note-merkle-node").length = 22 := by decide
  rw [nodeMessage, List.length_append, List.length_append, h, l.toList_length, r.toList_length]

section Tree

variable (P : Primitives)

def NoteMerkleTree.hashEmptyTree : Bytes32 := P.sha256 emptyTreeMessage

def NoteMerkleTree.hashLeaf (commitment : Bytes32) : Bytes32 := P.sha256 (leafMessage commitment)

def NoteMerkleTree.computeRootFromLeaves (leaves : List Bytes32) : Bytes32 :=
  Merkle.root P.sha256 nodeMessage (NoteMerkleTree.hashEmptyTree P)
    (leaves.map (NoteMerkleTree.hashLeaf P))

def NoteMerkleTree.root (tree : NoteMerkleTree) : Bytes32 :=
  NoteMerkleTree.computeRootFromLeaves P tree.leaves

/-- The proof for a leaf: the sibling on each level, on the way to the root. -/
def NoteMerkleTree.generateProof (tree : NoteMerkleTree) (leafIndex : ℕ) :
    Except NoteMerkleTreeError NoteMerkleProof :=
  if h : leafIndex < tree.leaves.length then
    let level := tree.leaves.map (NoteMerkleTree.hashLeaf P)
    .ok {
      leafIndex
      leaf := tree.leaves[leafIndex]
      siblings := Merkle.path P.sha256 nodeMessage (NoteMerkleTree.hashEmptyTree P)
        level.length leafIndex level
    }
  else .error (.leafIndexOutOfBounds leafIndex tree.leaves.length)

def computeNoteMerkleRootFromProof (proof : NoteMerkleProof) : Bytes32 :=
  Merkle.climb P.sha256 nodeMessage (NoteMerkleTree.hashLeaf P proof.leaf) proof.leafIndex
    proof.siblings

/-- `verify_proof` and `compute_note_merkle_root_from_proof` run the same loop. -/
def NoteMerkleTree.verifyProof (root : Bytes32) (proof : NoteMerkleProof) : Bool :=
  computeNoteMerkleRootFromProof P proof = root

/-- The messages hashed to compute the root of a list of leaves. -/
def treeMessages (leaves : List Bytes32) : List Bytes :=
  if leaves = [] then [emptyTreeMessage]
  else leaves.map leafMessage ++
    Merkle.messages P.sha256 nodeMessage leaves.length (leaves.map (NoteMerkleTree.hashLeaf P))

/-- The messages hashed to compute the root of a proof. -/
def proofMessages (proof : NoteMerkleProof) : List Bytes :=
  leafMessage proof.leaf ::
    Merkle.climbMessages P.sha256 nodeMessage (NoteMerkleTree.hashLeaf P proof.leaf)
      proof.leafIndex proof.siblings

variable {P}

theorem NoteMerkleTree.generateProof_of_lt {tree : NoteMerkleTree} {leafIndex : ℕ}
    (h : leafIndex < tree.leaves.length) :
    tree.generateProof P leafIndex = .ok {
      leafIndex
      leaf := tree.leaves[leafIndex]
      siblings := Merkle.path P.sha256 nodeMessage (NoteMerkleTree.hashEmptyTree P)
        (tree.leaves.map (NoteMerkleTree.hashLeaf P)).length leafIndex
        (tree.leaves.map (NoteMerkleTree.hashLeaf P)) } :=
  dif_pos h

/-- **A proof that was made** has the root of the tree. -/
theorem root_of_generateProof {tree : NoteMerkleTree} {leafIndex : ℕ} {proof : NoteMerkleProof}
    (h : tree.generateProof P leafIndex = .ok proof) :
    computeNoteMerkleRootFromProof P proof = tree.root P := by
  unfold NoteMerkleTree.generateProof at h
  split at h
  · next hindex =>
    cases h
    have hstart : NoteMerkleTree.hashLeaf P tree.leaves[leafIndex] =
        (tree.leaves.map (NoteMerkleTree.hashLeaf P)).getD leafIndex
          (NoteMerkleTree.hashEmptyTree P) := by
      rw [List.getD_eq_getElem?_getD, List.getElem?_map, List.getElem?_eq_getElem hindex]
      rfl
    rw [computeNoteMerkleRootFromProof, hstart]
    exact Merkle.climb_path _ (Nat.le_refl _) (by rwa [List.length_map])
  · cases h

/-- The end of a path is the digest of a leaf or of an inner node. -/
theorem computeNoteMerkleRootFromProof_eq (proof : NoteMerkleProof) :
    ∃ m ∈ proofMessages P proof, m ≠ emptyTreeMessage ∧
      computeNoteMerkleRootFromProof P proof = P.sha256 m := by
  have hne : ∀ (m : Bytes), m.length ≠ 23 → m ≠ emptyTreeMessage := by
    rintro m hm rfl
    exact hm length_emptyTreeMessage
  have key : ∀ (siblings : List Bytes32) (m : Bytes) (index : ℕ), m ≠ emptyTreeMessage →
      ∃ m' ∈ m :: Merkle.climbMessages P.sha256 nodeMessage (P.sha256 m) index siblings,
        m' ≠ emptyTreeMessage ∧
          Merkle.climb P.sha256 nodeMessage (P.sha256 m) index siblings = P.sha256 m' := by
    intro siblings
    induction siblings with
    | nil => exact fun m _ hm => ⟨m, List.mem_cons_self, hm, rfl⟩
    | cons sibling siblings ih =>
      intro m index _
      rw [Merkle.climb_cons, Merkle.climbMessages]
      obtain ⟨m', hmem, hm', heq⟩ := ih (if index % 2 = 0 then nodeMessage (P.sha256 m) sibling
        else nodeMessage sibling (P.sha256 m)) (index / 2) (by
          split <;> exact hne _ (by rw [length_nodeMessage]; decide))
      exact ⟨m', List.mem_cons_of_mem _ hmem, hm', heq⟩
  exact key _ _ _ (hne _ (by rw [length_leafMessage]; decide))

/-- **Soundness of membership**: without a collision, a proof whose root is that of the tree is for
one of its leaves. -/
theorem leaf_mem_of_root_eq {leaves : List Bytes32} {proof : NoteMerkleProof}
    {hashed : List Bytes} (hcol : ¬ Collision P.sha256 hashed)
    (htree : treeMessages P leaves ⊆ hashed) (hproof : proofMessages P proof ⊆ hashed)
    (h : computeNoteMerkleRootFromProof P proof =
      NoteMerkleTree.computeRootFromLeaves P leaves) : proof.leaf ∈ leaves := by
  rw [treeMessages] at htree
  by_cases hne : leaves = []
  · subst hne
    obtain ⟨m, hm, hmne, heq⟩ := computeNoteMerkleRootFromProof_eq (P := P) proof
    have hempty : emptyTreeMessage ∈ hashed := htree (by simp)
    exact absurd (eq_of_hash_eq hcol (hproof hm) hempty (heq.symm.trans h)) hmne
  · rw [if_neg hne, List.append_subset] at htree
    obtain ⟨hleaves, hnodes⟩ := htree
    rw [proofMessages, List.cons_subset] at hproof
    have hleaf : ∀ a b, nodeMessage a b ∈ hashed →
        P.sha256 (nodeMessage a b) ∉ leaves.map (NoteMerkleTree.hashLeaf P) := by
      intro a b hab hmem
      obtain ⟨c, hc, heq⟩ := List.mem_map.mp hmem
      have hm := eq_of_hash_eq hcol (hleaves (List.mem_map_of_mem hc)) hab heq
      have := congrArg List.length hm
      rw [length_leafMessage, length_nodeMessage] at this
      omega
    have hend : computeNoteMerkleRootFromProof P proof ∈
        Merkle.nodes P.sha256 nodeMessage leaves.length
          (leaves.map (NoteMerkleTree.hashLeaf P)) := by
      rw [h, ← List.length_map (NoteMerkleTree.hashLeaf P)]
      exact Merkle.root_mem_nodes _ (by simpa using hne)
    rcases Merkle.mem_nodes_cases
      (Merkle.mem_nodes_of_climb nodeMessage_injective hcol hnodes hleaf hproof.2 hend) with
      hmem | ⟨a, -, b, -, hm, heq⟩
    · obtain ⟨c, hc, heq⟩ := List.mem_map.mp hmem
      have hcm := eq_of_hash_eq hcol (hleaves (List.mem_map_of_mem hc)) hproof.1 heq
      rwa [← leafMessage_injective hcm]
    · have hcm := eq_of_hash_eq hcol hproof.1 (hnodes hm) heq
      have := congrArg List.length hcm
      rw [length_leafMessage, length_nodeMessage] at this
      omega

end Tree

end Prims
