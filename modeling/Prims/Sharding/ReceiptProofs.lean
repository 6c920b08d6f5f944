import Prims.Sharding.CrossShard

/-!
# Receipt proofs

A receipt of a phase has the digest of the transaction hash, the route and the phase as its proof.
The digest squeezes a message of any length through 64 bits, so it does not tell all messages apart;
but it tells apart two messages that differ in one byte. The phase is one byte, so a receipt is not
turned into a receipt of another phase by changing its phase.

## Main definitions

* `CrossShardPhase.byte`: the byte that stands for a phase

## Main results

* `buildReceiptProof_ne`: the proofs of two phases differ
* `receipt_proofs_detect_byte_changes`: what the digest detects, and what it means for receipts
-/

namespace Prims

/-- The byte that stands for a phase in the message of a proof. -/
def CrossShardPhase.byte : CrossShardPhase → UInt8
  | .prepare => 1
  | .validate => 2
  | .commit => 3

theorem CrossShardPhase.byte_injective : Function.Injective CrossShardPhase.byte := by
  intro p q h
  cases p <;> cases q <;> first | rfl | exact absurd h (by decide)

theorem buildReceiptProof_eq (txHash : Bytes) (phase : CrossShardPhase)
    (sourceShard destinationShard : UInt16) :
    buildReceiptProof txHash phase sourceShard destinationShard =
      deterministicDigest (txHash ++ beBytes 2 sourceShard.toNat ++
        beBytes 2 destinationShard.toNat ++ [phase.byte]) 0xB4B4B4B4B4B4B4B4 := by
  cases phase <;> rfl

/-- **The proofs of two phases differ**: their messages differ in the last byte. -/
theorem buildReceiptProof_ne (txHash : Bytes) {p q : CrossShardPhase} (h : p ≠ q)
    (sourceShard destinationShard : UInt16) :
    buildReceiptProof txHash p sourceShard destinationShard ≠
      buildReceiptProof txHash q sourceShard destinationShard := by
  rw [buildReceiptProof_eq, buildReceiptProof_eq]
  exact deterministicDigest_ne _ _ [] (CrossShardPhase.byte_injective.ne h)

/-- A receipt that passes all checks but the last one is rejected for its proof. -/
theorem validateCrossShardReceipt_eq_error {chain : BeaconChain} {transaction : Transaction}
    {txHash : Bytes} {receipt : CrossShardReceipt}
    (hroute : validateCrossShardRoute transaction chain.config.shardCount = .ok ())
    (hhash : receipt.txHash = txHash) (hsource : receipt.sourceShard = transaction.sourceShard)
    (hdestination : receipt.destinationShard = transaction.destinationShard)
    (hproof : receipt.proof ≠ buildReceiptProof txHash receipt.phase receipt.sourceShard
      receipt.destinationShard) :
    chain.validateCrossShardReceipt transaction txHash receipt =
      .error (.invalidReceiptProof receipt.phase) := by
  rw [BeaconChain.validateCrossShardReceipt, hroute]
  simp only [ensure, if_pos hhash, if_pos (And.intro hsource hdestination), if_neg hproof]
  rfl

/-- **Receipt proofs detect a change of one byte**: messages of one length that differ in exactly
one byte have different digests under every seed. Hence the proofs of the three phases differ for
every hash and every route, and a valid receipt with another phase is rejected for its proof. -/
theorem receipt_proofs_detect_byte_changes :
    (∀ (seed : UInt64) (payload payload' : Bytes), payload.length = payload'.length →
      (∃! i : ℕ, payload[i]? ≠ payload'[i]?) →
        deterministicDigest payload seed ≠ deterministicDigest payload' seed) ∧
    (∀ (txHash : Bytes) (sourceShard destinationShard : UInt16) (p q : CrossShardPhase), p ≠ q →
      buildReceiptProof txHash p sourceShard destinationShard ≠
        buildReceiptProof txHash q sourceShard destinationShard) ∧
    ∀ (chain : BeaconChain) (transaction : Transaction) (txHash : Bytes)
      (receipt : CrossShardReceipt) (phase : CrossShardPhase),
      chain.validateCrossShardReceipt transaction txHash receipt = .ok () → phase ≠ receipt.phase →
        chain.validateCrossShardReceipt transaction txHash { receipt with phase } =
          .error (.invalidReceiptProof phase) := by
  refine ⟨fun seed payload payload' hlength hdiffer => ?_,
    fun txHash sourceShard destinationShard p q hne => buildReceiptProof_ne txHash hne _ _,
    fun chain transaction txHash receipt phase hvalid hphase => ?_⟩
  · obtain ⟨before, a, b, after, hne, rfl, rfl⟩ := Mixing.exists_split_of_differ hlength hdiffer
    exact deterministicDigest_ne seed before after hne
  · obtain ⟨hroute, hreceipt⟩ := BeaconChain.validateCrossShardReceipt_eq_ok.mp hvalid
    have hproof : receipt.proof = buildReceiptProof txHash receipt.phase receipt.sourceShard
        receipt.destinationShard := by
      rw [hreceipt]
      rfl
    refine validateCrossShardReceipt_eq_error hroute (congrArg CrossShardReceipt.txHash hreceipt)
      (congrArg CrossShardReceipt.sourceShard hreceipt)
      (congrArg CrossShardReceipt.destinationShard hreceipt) ?_
    rw [hproof]
    exact buildReceiptProof_ne txHash hphase.symm _ _

/-- The receipt of the first phase of the transfer, offered as that of the last one. -/
theorem crossShardTransfer_receipt_phase :
    let receipt := buildCrossShardReceipt crossShardTransfer [7] .prepare
    fourShards.validateCrossShardReceipt crossShardTransfer [7] receipt = .ok () ∧
      fourShards.validateCrossShardReceipt crossShardTransfer [7]
        { receipt with phase := .commit } = .error (.invalidReceiptProof .commit) := by
  intro receipt
  have hvalid : fourShards.validateCrossShardReceipt crossShardTransfer [7] receipt = .ok () :=
    BeaconChain.validateCrossShardReceipt_eq_ok.mpr
      ⟨validateCrossShardRoute_crossShardTransfer, rfl⟩
  exact ⟨hvalid, receipt_proofs_detect_byte_changes.2.2 fourShards crossShardTransfer [7] receipt
    .commit hvalid (by decide)⟩

end Prims
