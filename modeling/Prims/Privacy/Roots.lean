import Prims.Lib.MerkleTree
import Prims.Privacy.Notes

/-!
# What a note root binds

A root stands for the notes of a tree in the public inputs of a transfer and in the store. It says
nothing about how many notes there are: the last hash of an odd level is joined with itself, so a
tree whose last note is appended again, where it is repeated anyway, keeps its root. That is all
that is lost. Two trees have one root when their leaves are padded alike, and then each leaf of one
is a leaf of the other.

## Main definitions

* `NoteMerkleTree.append`, `NoteMerkleTree.appendAll`: growing trees

## Main results

* `note_root_binds`: when two trees have one root, and when a tree that grows keeps its root
-/

namespace Prims

namespace NoteMerkleTree

def new : NoteMerkleTree := ⟨[]⟩

def fromCommitments (leaves : List Bytes32) : NoteMerkleTree := ⟨leaves⟩

def append (tree : NoteMerkleTree) (note : Note) : NoteMerkleTree :=
  ⟨tree.leaves ++ [note.commitment]⟩

def leafCount (tree : NoteMerkleTree) : ℕ := tree.leaves.length

/-- A tree after some notes were appended, one by one. -/
def appendAll (tree : NoteMerkleTree) (notes : List Note) : NoteMerkleTree :=
  notes.foldl append tree

theorem leaves_appendAll (tree : NoteMerkleTree) (notes : List Note) :
    (tree.appendAll notes).leaves = tree.leaves ++ notes.map Note.commitment := by
  induction notes generalizing tree with
  | nil => exact (List.append_nil _).symm
  | cons note notes ih =>
    refine (ih (tree.append note)).trans ?_
    simp [append]

end NoteMerkleTree

open NoteMerkleTree

variable {P : Primitives}

/-- The messages of a tree are those that its root is hashed from. -/
theorem treeMessages_eq (leaves : List Bytes32) :
    treeMessages P leaves =
      Merkle.rootMessages P.sha256 leafMessage nodeMessage emptyTreeMessage leaves := by
  cases leaves <;> rfl

/-- The three kinds of message differ. -/
theorem leafMessage_ne_nodeMessage (c a b : Bytes32) : leafMessage c ≠ nodeMessage a b := by
  intro h
  have hlength := congrArg List.length h
  rw [length_leafMessage, length_nodeMessage] at hlength
  omega

theorem emptyTreeMessage_ne (c a b : Bytes32) :
    emptyTreeMessage ≠ leafMessage c ∧ emptyTreeMessage ≠ nodeMessage a b := by
  constructor <;> intro h
  · have hlength := congrArg List.length h
    rw [length_emptyTreeMessage, length_leafMessage] at hlength
    omega
  · have hlength := congrArg List.length h
    rw [length_emptyTreeMessage, length_nodeMessage] at hlength
    omega

/-- Without a collision, two trees have one root if and only if their leaves are padded alike. -/
theorem root_eq_iff {tree tree' : NoteMerkleTree}
    (hcol : ¬ Collision P.sha256 (treeMessages P tree.leaves ++ treeMessages P tree'.leaves)) :
    tree.root P = tree'.root P ↔ Merkle.padded tree.leaves = Merkle.padded tree'.leaves := by
  rw [treeMessages_eq, treeMessages_eq] at hcol
  exact Merkle.root_eq_iff_padded_eq leafMessage_injective nodeMessage_injective
    leafMessage_ne_nodeMessage (fun c => (emptyTreeMessage_ne c zeroBytes32 zeroBytes32).1)
    (fun a b => (emptyTreeMessage_ne zeroBytes32 a b).2) hcol

/-- **What a root binds.** Trees whose leaves are padded alike have one root. Trees with one root,
unless two of the messages that are hashed for them are a collision, are padded alike: they have the
same leaves, and the leaves of one start with those of the other. So a tree that keeps its root when
notes are appended had all of these notes before. -/
theorem note_root_binds (P : Primitives) (tree tree' : NoteMerkleTree) (notes : List Note) :
    (Merkle.padded tree.leaves = Merkle.padded tree'.leaves → tree.root P = tree'.root P) ∧
    (tree.root P = tree'.root P →
      (Merkle.padded tree.leaves = Merkle.padded tree'.leaves ∧
        (∀ c, c ∈ tree.leaves ↔ c ∈ tree'.leaves) ∧
        (tree.leaves <+: tree'.leaves ∨ tree'.leaves <+: tree.leaves)) ∨
      Collision P.sha256 (treeMessages P tree.leaves ++ treeMessages P tree'.leaves)) ∧
    ((tree.appendAll notes).root P = tree.root P →
      (∀ note ∈ notes, note.commitment ∈ tree.leaves) ∨
      Collision P.sha256
        (treeMessages P (tree.appendAll notes).leaves ++ treeMessages P tree.leaves)) := by
  have hsame : ∀ tree tree' : NoteMerkleTree,
      Merkle.padded tree.leaves = Merkle.padded tree'.leaves →
        ∀ c, c ∈ tree.leaves ↔ c ∈ tree'.leaves := by
    intro tree tree' h c
    rw [← Merkle.mem_padded, h, Merkle.mem_padded]
  refine ⟨Merkle.root_eq_of_padded_eq _, fun h => ?_, fun h => ?_⟩
  · by_cases hcol : Collision P.sha256
      (treeMessages P tree.leaves ++ treeMessages P tree'.leaves)
    · exact .inr hcol
    · have hpadded := (root_eq_iff hcol).mp h
      refine .inl ⟨hpadded, hsame tree tree' hpadded, ?_⟩
      apply List.prefix_or_prefix_of_prefix (Merkle.prefix_padded tree.leaves)
      rw [hpadded]
      exact Merkle.prefix_padded tree'.leaves
  · by_cases hcol : Collision P.sha256
      (treeMessages P (tree.appendAll notes).leaves ++ treeMessages P tree.leaves)
    · exact .inr hcol
    · refine .inl fun note hnote => ?_
      rw [← hsame _ _ ((root_eq_iff hcol).mp h), leaves_appendAll]
      exact List.mem_append_right _ (List.mem_map_of_mem hnote)

end Prims
