import Prims.Privacy.Transfer

/-!
# Proofs of membership

The tree of notes makes proofs of membership and checks them, each in a loop of its own. What the
tree makes it accepts, for every leaf and every number of leaves. What it accepts is a proof for a
leaf of the tree, whatever the index, the siblings and their number, unless two of the messages
that were hashed are a collision.

## Main results

* `note_merkle_proofs_complete`: the tree makes a proof for every leaf, and accepts it
* `note_merkle_proofs_sound`: a proof that is accepted is for a leaf
-/

namespace Prims

/-- **Completeness**: for every place of the list there is a proof, which has the leaf of the place
and one sibling for each level, and is accepted; there is none for the places after the last. -/
theorem note_merkle_proofs_complete (P : Primitives) (leaves : List Bytes32) (leafIndex : ℕ) :
    (∀ h : leafIndex < leaves.length, ∃ proof,
      NoteMerkleTree.generateProof P ⟨leaves⟩ leafIndex = .ok proof ∧
        proof.leafIndex = leafIndex ∧ proof.leaf = leaves[leafIndex] ∧
        proof.siblings.length = Nat.clog 2 leaves.length ∧
        NoteMerkleTree.verifyProof P (NoteMerkleTree.root P ⟨leaves⟩) proof = true ∧
        computeNoteMerkleRootFromProof P proof = NoteMerkleTree.root P ⟨leaves⟩) ∧
    (leaves.length ≤ leafIndex → NoteMerkleTree.generateProof P ⟨leaves⟩ leafIndex =
      .error (.leafIndexOutOfBounds leafIndex leaves.length)) := by
  constructor
  · intro h
    have hproof := NoteMerkleTree.generateProof_of_lt (P := P) h
    have hroot := root_of_generateProof hproof
    refine ⟨_, hproof, rfl, rfl, ?_, decide_eq_true hroot, hroot⟩
    rw [Merkle.length_path _ (Nat.le_refl _), List.length_map]
  · intro h
    exact dif_neg (not_lt.mpr h)

theorem thirdLeaf_proof : ∃ proof,
    NoteMerkleTree.generateProof noSignatures
        ⟨[sampleCommitment, sampleOutputCommitment, sampleRoot]⟩ 2 = .ok proof ∧
      proof.leaf = sampleRoot ∧ proof.siblings.length = 2 ∧
      NoteMerkleTree.verifyProof noSignatures (NoteMerkleTree.root noSignatures
        ⟨[sampleCommitment, sampleOutputCommitment, sampleRoot]⟩) proof = true := by
  obtain ⟨proof, hproof, -, hleaf, hlength, hverify, -⟩ := (note_merkle_proofs_complete noSignatures
    [sampleCommitment, sampleOutputCommitment, sampleRoot] 2).1 (by decide)
  exact ⟨proof, hproof, hleaf, hlength, hverify⟩

/-- **Soundness**: a proof that the root of a list accepts is for one of the commitments of the
list, unless there is a collision among the messages that the two computations hash. -/
theorem note_merkle_proofs_sound (P : Primitives) (leaves : List Bytes32)
    (proof : NoteMerkleProof)
    (h : NoteMerkleTree.verifyProof P (NoteMerkleTree.root P ⟨leaves⟩) proof = true) :
    proof.leaf ∈ leaves ∨
      Collision P.sha256 (treeMessages P leaves ++ proofMessages P proof) := by
  by_cases hcol : Collision P.sha256 (treeMessages P leaves ++ proofMessages P proof)
  · exact .inr hcol
  · left
    exact leaf_mem_of_root_eq hcol (List.subset_append_left _ _) (List.subset_append_right _ _)
      (of_decide_eq_true h)

theorem thirdLeaf_sound : ∃ proof : NoteMerkleProof, proof.leafIndex = 2 ∧
    proof.siblings.length = 2 ∧
    NoteMerkleTree.verifyProof noSignatures (NoteMerkleTree.root noSignatures
      ⟨[sampleCommitment, sampleOutputCommitment, sampleRoot]⟩) proof = true ∧
    (proof.leaf ∈ [sampleCommitment, sampleOutputCommitment, sampleRoot] ∨
      Collision noSignatures.sha256
        (treeMessages noSignatures [sampleCommitment, sampleOutputCommitment, sampleRoot] ++
          proofMessages noSignatures proof)) := by
  let tree : NoteMerkleTree := ⟨[sampleCommitment, sampleOutputCommitment, sampleRoot]⟩
  have hlt : 2 < tree.leaves.length := by decide
  have hproof := NoteMerkleTree.generateProof_of_lt (P := noSignatures) hlt
  have h := decide_eq_true (root_of_generateProof hproof)
  exact ⟨_, rfl, rfl, h, note_merkle_proofs_sound noSignatures _ _ h⟩

end Prims
