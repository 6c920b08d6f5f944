import Prims.Crypto
import Prims.Lib.Merkle

/-!
# Digests of the chain

The functions of `blockchain/hash.rs`: the digest of a transaction and of a header are those of
their binary format, and the Merkle root of a block's transactions is built level by level, with
the last digest of an odd level repeated.

## Main definitions

* `hashTransaction`, `hashBlockHeader`, `contractCodeHash`, `deriveContractAddress`
* `calculateMerkleRoot`: the root of a list of transactions
* `merkleMessages`: what `calculateMerkleRoot` hashes

## Main results

* `calculateMerkleRoot_injective`: lists of one length with one root are equal
-/

namespace Prims

open Bincode

variable (P : Primitives)

def contractCodeHash (codeWasm : Bytes) : Bytes32 := P.sha256 codeWasm

def deriveContractAddress (sender codeWasm : Bytes) : Bytes32 :=
  P.sha256 (utf8 "prims-contract" ++ sender ++ (contractCodeHash P codeWasm).toList)

def hashTransaction (tx : Transaction) : Bytes32 := P.sha256 (serialize tx)

def hashBlockHeader (header : BlockHeader) : Bytes32 := P.sha256 (serialize header)

/-- The message of an inner node: the two digests one after the other. -/
def combined (left right : Bytes32) : Bytes := left.toList ++ right.toList

theorem combined_injective : Function.Injective2 combined := by
  intro a a' b b' h
  have hlen : a.toList.length = a'.toList.length := by
    rw [a.toList_length, a'.toList_length]
  obtain ⟨ha, hb⟩ := List.append_inj h hlen
  exact ⟨Subtype.ext ha, Subtype.ext hb⟩

/-- **The Merkle root** of a list of transactions; the root of the empty list is the digest of the
empty message. -/
def calculateMerkleRoot (transactions : List Transaction) : Bytes32 :=
  Merkle.root P.sha256 combined (P.sha256 []) (transactions.map (hashTransaction P))

/-- The messages that `calculateMerkleRoot` hashes. -/
def merkleMessages (transactions : List Transaction) : List Bytes :=
  if transactions = [] then [[]]
  else transactions.map serialize ++
    Merkle.messages P.sha256 combined transactions.length
      (transactions.map (hashTransaction P))

variable {P}

theorem mem_merkleMessages {transactions : List Transaction} {tx : Transaction}
    (h : tx ∈ transactions) : serialize tx ∈ merkleMessages P transactions := by
  rw [merkleMessages, if_neg (List.ne_nil_of_mem h)]
  exact List.mem_append_left _ (List.mem_map_of_mem h)

theorem levels_subset_merkleMessages (transactions : List Transaction) :
    Merkle.messages P.sha256 combined transactions.length
      (transactions.map (hashTransaction P)) ⊆ merkleMessages P transactions := by
  rw [merkleMessages]
  split
  · next h =>
    subst h
    exact List.nil_subset _
  · exact List.subset_append_right _ _

/-- **The root binds the transactions at one length**: without a collision among the messages
hashed, two lists of one length with the same root are equal. -/
theorem calculateMerkleRoot_injective {transactions transactions' : List Transaction}
    (hfit : ∀ tx ∈ transactions, Codec.Fits tx) (hfit' : ∀ tx ∈ transactions', Codec.Fits tx)
    (hlen : transactions.length = transactions'.length)
    (hcol : ¬ Collision P.sha256 (merkleMessages P transactions ++ merkleMessages P transactions'))
    (h : calculateMerkleRoot P transactions = calculateMerkleRoot P transactions') :
    transactions = transactions' := by
  have hdigests : transactions.map (hashTransaction P) = transactions'.map (hashTransaction P) := by
    refine Merkle.root_injective combined_injective (by simpa using hlen) ?_ h
    intro hc
    apply hcol
    apply hc.mono
    rw [List.length_map, List.length_map]
    exact List.append_subset.mpr
      ⟨List.Subset.trans (levels_subset_merkleMessages _) (List.subset_append_left _ _),
        List.Subset.trans (levels_subset_merkleMessages _) (List.subset_append_right _ _)⟩
  refine List.ext_getElem hlen fun i hi hi' => ?_
  have hdigest : P.sha256 (serialize transactions[i]) = P.sha256 (serialize transactions'[i]) := by
    have := congrArg (fun l => l[i]?) hdigests
    simpa [hi, hi', hashTransaction] using this
  have hmem := List.getElem_mem hi
  have hmem' := List.getElem_mem hi'
  apply serialize_injective (hfit _ hmem) (hfit' _ hmem')
  exact eq_of_hash_eq hcol (List.mem_append_left _ (mem_merkleMessages hmem))
    (List.mem_append_right _ (mem_merkleMessages hmem')) hdigest

end Prims
