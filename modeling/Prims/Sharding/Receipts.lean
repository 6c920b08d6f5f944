import Prims.Blockchain.Validation
import Prims.Sharding.CrossShard

/-!
# Receipts in blocks

A block carries receipts next to its transactions. The header commits to the transactions, through
their Merkle root, and it is what the validator signs. Nothing in it depends on the receipts: a
receipt is checked against the cross-shard execution it belongs to, by the beacon chain, and the
checks on a block read the receipts through the size of the encoded block only.

## Main definitions

* `BeaconChain.includeReceiptsInBlock`

## Main results

* `accepted_with_other_receipts_iff`: which other receipts an accepted block may carry
-/

namespace Prims

open Bincode

/-- The receipts of an execution go to the end of those of the block. -/
def BeaconChain.includeReceiptsInBlock (_chain : BeaconChain) (block : Block)
    (execution : CrossShardExecution) : Block :=
  { block with receipts := block.receipts ++ execution.receipts }

/-- **Receipts are read through the size only**: a block with the header and the transactions of an
accepted block, and any receipts, is accepted if and only if its encoding is small enough. -/
theorem accepted_with_other_receipts_iff (P : Primitives) (previousHash : Bytes) (block : Block)
    (haccepted : validateBlock P block previousHash = .ok ()) (block' : Block)
    (hheader : block'.header = block.header)
    (htransactions : block'.transactions = block.transactions) :
    validateBlock P block' previousHash = .ok () ↔
      (serialize block').length < maxBlockSizeBytes := by
  obtain ⟨-, hprevious, hroot, hsignature⟩ := validateBlock_ok.mp haccepted
  rw [validateBlock_ok, hheader, htransactions]
  exact ⟨And.left, fun hsize => ⟨hsize, hprevious, hroot, hsignature⟩⟩

/-- The sample block with the receipts of the finalized transfer. -/
def receiptBlock : Block := fourShards.includeReceiptsInBlock sampleBlock finalizedTransfer

theorem length_serialize_receiptBlock : (serialize receiptBlock).length < maxBlockSizeBytes := by
  decide +kernel

theorem receiptBlock_accepted :
    validateBlock headerSignature sampleBlock (List.replicate 32 7) = .ok () ∧
      receiptBlock.header = sampleBlock.header ∧
      receiptBlock.transactions = sampleBlock.transactions ∧
      validateBlock headerSignature receiptBlock (List.replicate 32 7) = .ok () := by
  have haccepted := validateBlock_sampleBlock.1
  refine ⟨haccepted, rfl, rfl, ?_⟩
  exact (accepted_with_other_receipts_iff headerSignature (List.replicate 32 7) sampleBlock
    haccepted receiptBlock rfl rfl).mpr length_serialize_receiptBlock

/-- The Merkle computation of the sample block hashes the messages of its table and no others. -/
theorem sampleBlock_messages_not_collision :
    ¬ Collision headerSignature.sha256
      (merkleMessages headerSignature sampleBlock.transactions) := by
  rintro ⟨m, hm, m', hm', hne, heq⟩
  exact sampleBlock_not_collision
    ⟨m, List.mem_append_left _ hm, m', List.mem_append_left _ hm', hne, heq⟩

/-- **One header, two lists of receipts**: the block without receipts and the block with the three
receipts of a transfer are both accepted, and there is no collision. -/
theorem receiptBlock_same_header :
    validateBlock headerSignature receiptBlock (List.replicate 32 7) = .ok () ∧
      validateBlock headerSignature sampleBlock (List.replicate 32 7) = .ok () ∧
      sampleBlock.header = receiptBlock.header ∧
      sampleBlock.transactions = receiptBlock.transactions ∧
      sampleBlock.receipts ≠ receiptBlock.receipts ∧
      (serialize sampleBlock).length < maxBlockSizeBytes ∧
      ¬ Collision headerSignature.sha256
        (merkleMessages headerSignature sampleBlock.transactions) := by
  have haccepted := validateBlock_sampleBlock.1
  obtain ⟨hsize, hchecks⟩ := validateBlock_ok.mp haccepted
  have hreceipts : validateBlock headerSignature receiptBlock (List.replicate 32 7) = .ok () :=
    validateBlock_ok.mpr ⟨length_serialize_receiptBlock, hchecks⟩
  exact ⟨hreceipts, haccepted, rfl, rfl, by decide, hsize, sampleBlock_messages_not_collision⟩

end Prims
