import Prims.Lib.Simulation
import Prims.Sharding.BeaconChain

/-!
# Cross-shard transactions

The cross-shard protocol of `sharding/mod.rs`. A transaction between two shards is prepared in the
source shard, validated in the destination shard and committed; every phase adds a receipt with a
proof, a digest of the transaction hash, the route and the phase. An execution record keeps the
transaction, its hash, a flag for every phase and the receipts, and a checker decides from the
record alone whether the transaction is globally finalized.

The writer is a machine with three states, which the checker accepts. The checker however compares
the receipts with the hash in the record and never the hash with the transaction, so what it accepts
does not depend on the transaction, but for its route.

## Main definitions

* `prepareCrossShardTransaction`, `validateCrossShardTransaction`, `commitCrossShardTransaction`
* `validateCrossShardExecutionProofs`, `isCrossShardExecutionGloballyFinalized`: the checker
* `CrossShardStage`: the three states of the writer
* `ProtocolSound`: what holds of an execution after a run of calls

## Main results

* `cross_shard_protocol_sound`: the writer and the checker agree after every run of calls
* `isGloballyFinalized_eq_true_iff`: the records that the checker accepts as finalized
* `finality_vouches_iff`: when they vouch for the transaction
-/

namespace Prims

open Bincode

inductive CrossShardTransactionError where
  | beaconChain (error : BeaconChainError)
  | notCrossShard
  | sourceShardNotPrepared
  | destinationShardNotValidated
  | destinationAlreadyValidated
  | alreadyCommitted
  | invalidReceiptCount (expected provided : ℕ)
  | missingReceiptPhase (phase : CrossShardPhase)
  | receiptTxHashMismatch
  | receiptRouteMismatch (expectedSourceShard expectedDestinationShard actualSourceShard
      actualDestinationShard : UInt16)
  | invalidReceiptProof (phase : CrossShardPhase)
  deriving DecidableEq, Repr

structure CrossShardExecution where
  transaction : Transaction
  txHash : Bytes
  sourcePrepared : Bool
  destinationValidated : Bool
  committed : Bool
  receipts : List CrossShardReceipt
  deriving DecidableEq, Repr

def Transaction.isCrossShard (transaction : Transaction) : Bool :=
  transaction.sourceShard ≠ transaction.destinationShard

def validateCrossShardRoute (transaction : Transaction) (shardCount : UInt16) :
    Except CrossShardTransactionError Unit := do
  (validateShardId transaction.sourceShard shardCount).mapError .beaconChain
  (validateShardId transaction.destinationShard shardCount).mapError .beaconChain
  ensure transaction.isCrossShard .notCrossShard

/-- The encoding of a transaction does not fail. -/
def buildCrossShardTransactionHash (transaction : Transaction) : Bytes :=
  deterministicDigest (serialize transaction) 0xA5A5A5A5A5A5A5A5

def buildReceiptProof (txHash : Bytes) (phase : CrossShardPhase)
    (sourceShard destinationShard : UInt16) : Bytes :=
  let phaseByte : UInt8 := match phase with
    | .prepare => 1
    | .validate => 2
    | .commit => 3
  deterministicDigest (txHash ++ beBytes 2 sourceShard.toNat ++ beBytes 2 destinationShard.toNat ++
    [phaseByte]) 0xB4B4B4B4B4B4B4B4

def buildCrossShardReceipt (transaction : Transaction) (txHash : Bytes) (phase : CrossShardPhase) :
    CrossShardReceipt where
  txHash := txHash
  sourceShard := transaction.sourceShard
  destinationShard := transaction.destinationShard
  phase := phase
  proof := buildReceiptProof txHash phase transaction.sourceShard transaction.destinationShard

def expectedReceiptPhases (execution : CrossShardExecution) : List CrossShardPhase :=
  (if execution.sourcePrepared || execution.destinationValidated || execution.committed
    then [.prepare] else []) ++
  (if execution.destinationValidated || execution.committed then [.validate] else []) ++
  (if execution.committed then [.commit] else [])

/-! ## The phases -/

namespace BeaconChain

variable (chain : BeaconChain)

def prepareCrossShardTransaction (transaction : Transaction) :
    Except CrossShardTransactionError CrossShardExecution := do
  validateCrossShardRoute transaction chain.config.shardCount
  let txHash := buildCrossShardTransactionHash transaction
  return {
    transaction
    txHash
    sourcePrepared := true
    destinationValidated := false
    committed := false
    receipts := [buildCrossShardReceipt transaction txHash .prepare] }

/-- The receipt of a phase is added to the execution. -/
def pushReceipt (phase : CrossShardPhase) :
    Procedure CrossShardTransactionError CrossShardExecution Unit :=
  Procedure.modify fun execution => { execution with
    receipts := execution.receipts ++
      [buildCrossShardReceipt execution.transaction execution.txHash phase] }

def validateCrossShardTransaction :
    Procedure CrossShardTransactionError CrossShardExecution Unit := do
  Procedure.read fun execution =>
    validateCrossShardRoute execution.transaction chain.config.shardCount
  Procedure.read fun execution => ensure execution.sourcePrepared .sourceShardNotPrepared
  Procedure.read fun execution =>
    ensure (execution.destinationValidated = false) .destinationAlreadyValidated
  Procedure.read fun execution => ensure (execution.committed = false) .alreadyCommitted
  pushReceipt .validate
  Procedure.modify fun execution => { execution with destinationValidated := true }

def commitCrossShardTransaction :
    Procedure CrossShardTransactionError CrossShardExecution Unit := do
  Procedure.read fun execution =>
    validateCrossShardRoute execution.transaction chain.config.shardCount
  Procedure.read fun execution => ensure (execution.committed = false) .alreadyCommitted
  Procedure.read fun execution => ensure execution.sourcePrepared .sourceShardNotPrepared
  Procedure.read fun execution =>
    ensure execution.destinationValidated .destinationShardNotValidated
  pushReceipt .commit
  Procedure.modify fun execution => { execution with committed := true }

/-! ## The checker -/

def validateCrossShardReceipt (transaction : Transaction) (txHash : Bytes)
    (receipt : CrossShardReceipt) : Except CrossShardTransactionError Unit := do
  validateCrossShardRoute transaction chain.config.shardCount
  ensure (receipt.txHash = txHash) .receiptTxHashMismatch
  ensure (receipt.sourceShard = transaction.sourceShard ∧
      receipt.destinationShard = transaction.destinationShard)
    (.receiptRouteMismatch transaction.sourceShard transaction.destinationShard
      receipt.sourceShard receipt.destinationShard)
  ensure (receipt.proof = buildReceiptProof txHash receipt.phase receipt.sourceShard
    receipt.destinationShard) (.invalidReceiptProof receipt.phase)

def validateCrossShardExecutionProofs (execution : CrossShardExecution) :
    Except CrossShardTransactionError Unit := do
  validateCrossShardRoute execution.transaction chain.config.shardCount
  ensure (¬ (execution.committed ∧ ¬ execution.destinationValidated)) .destinationShardNotValidated
  ensure (¬ ((execution.destinationValidated ∨ execution.committed) ∧ ¬ execution.sourcePrepared))
    .sourceShardNotPrepared
  let expectedPhases := expectedReceiptPhases execution
  ensure (execution.receipts.length = expectedPhases.length)
    (.invalidReceiptCount expectedPhases.length execution.receipts.length)
  (execution.receipts.zip expectedPhases).forM fun (receipt, expectedPhase) => do
    ensure (receipt.phase = expectedPhase) (.missingReceiptPhase expectedPhase)
    chain.validateCrossShardReceipt execution.transaction execution.txHash receipt

def isCrossShardExecutionGloballyFinalized (execution : CrossShardExecution) :
    Except CrossShardTransactionError Bool := do
  chain.validateCrossShardExecutionProofs execution
  return execution.sourcePrepared && execution.destinationValidated && execution.committed &&
    execution.receipts.length = 3

/-! ### What the checker accepts -/

variable {chain}

/-- A receipt is accepted when it is the one the writer adds in its phase. -/
theorem validateCrossShardReceipt_eq_ok {transaction : Transaction} {txHash : Bytes}
    {receipt : CrossShardReceipt} :
    chain.validateCrossShardReceipt transaction txHash receipt = .ok () ↔
      validateCrossShardRoute transaction chain.config.shardCount = .ok () ∧
        receipt = buildCrossShardReceipt transaction txHash receipt.phase := by
  rw [validateCrossShardReceipt, Except.bind_eq_ok]
  simp only [ensure_bind_eq_ok, ensure_eq_ok]
  constructor
  · rintro ⟨⟨⟩, hroute, hhash, ⟨hsource, hdestination⟩, hproof⟩
    refine ⟨hroute, ?_⟩
    obtain ⟨hash, source, destination, phase, proof⟩ := receipt
    -- the comparisons determine every field but the phase
    dsimp only at hhash hsource hdestination hproof
    subst hhash hsource hdestination hproof
    rfl
  · rintro ⟨hroute, hreceipt⟩
    rw [hreceipt]
    exact ⟨(), hroute, rfl, ⟨rfl, rfl⟩, rfl⟩

/-- **The records that the checker accepts**: the flags are set in order, and the receipts are those
of the phases that the flags select, for the hash and the route of the record. -/
theorem validateCrossShardExecutionProofs_eq_ok {execution : CrossShardExecution} :
    chain.validateCrossShardExecutionProofs execution = .ok () ↔
      validateCrossShardRoute execution.transaction chain.config.shardCount = .ok () ∧
        (execution.committed → execution.destinationValidated) ∧
        (execution.destinationValidated → execution.sourcePrepared) ∧
        execution.receipts = (expectedReceiptPhases execution).map
          (buildCrossShardReceipt execution.transaction execution.txHash) := by
  -- one round of the loop accepts one receipt, that of its phase
  have hround : ∀ receipt expectedPhase,
      validateCrossShardRoute execution.transaction chain.config.shardCount = .ok () →
      (receipt.phase = expectedPhase ∧
          chain.validateCrossShardReceipt execution.transaction execution.txHash receipt = .ok () ↔
        receipt = buildCrossShardReceipt execution.transaction execution.txHash expectedPhase) := by
    intro receipt expectedPhase hroute
    rw [validateCrossShardReceipt_eq_ok]
    constructor
    · rintro ⟨rfl, -, hreceipt⟩
      exact hreceipt
    · rintro rfl
      exact ⟨rfl, hroute, rfl⟩
  rw [validateCrossShardExecutionProofs, Except.bind_eq_ok]
  simp only [ensure_bind_eq_ok, forM_eq_ok]
  constructor
  · rintro ⟨⟨⟩, hroute, hcommitted, hprepared, hlength, hrounds⟩
    refine ⟨hroute, by tauto, by tauto, ?_⟩
    -- the zip would drop what has no partner, so the equal lengths are used here
    rw [← List.forall₂_eq_eq_eq, List.forall₂_map_right_iff, List.forall₂_iff_zip]
    exact ⟨hlength, fun hmem => (hround _ _ hroute).mp (hrounds _ hmem)⟩
  · rintro ⟨hroute, hcommitted, hprepared, hreceipts⟩
    rw [← List.forall₂_eq_eq_eq, List.forall₂_map_right_iff, List.forall₂_iff_zip] at hreceipts
    exact ⟨(), hroute, by tauto, by tauto, hreceipts.1,
      fun _ hmem => (hround _ _ hroute).mpr (hreceipts.2 hmem)⟩

/-- **The records that are globally finalized**: all flags are set, and the receipts are those of
the three phases, for the hash and the route of the record. -/
theorem isGloballyFinalized_eq_true_iff {execution : CrossShardExecution} :
    chain.isCrossShardExecutionGloballyFinalized execution = .ok true ↔
      validateCrossShardRoute execution.transaction chain.config.shardCount = .ok () ∧
        execution = { execution with
          sourcePrepared := true
          destinationValidated := true
          committed := true
          receipts := [.prepare, .validate, .commit].map
            (buildCrossShardReceipt execution.transaction execution.txHash) } := by
  rw [isCrossShardExecutionGloballyFinalized, Except.bind_eq_ok]
  obtain ⟨transaction, txHash, sourcePrepared, destinationValidated, committed, receipts⟩ :=
    execution
  constructor
  · rintro ⟨⟨⟩, hproofs, hflags⟩
    obtain ⟨hroute, -, -, hreceipts⟩ := validateCrossShardExecutionProofs_eq_ok.mp hproofs
    refine ⟨hroute, ?_⟩
    have hflags := Except.ok.inj hflags
    simp only [Bool.and_eq_true] at hflags
    -- the flags alone give three phases; the count of the receipts adds nothing
    obtain ⟨⟨⟨rfl, rfl⟩, rfl⟩, -⟩ := hflags
    dsimp only at hreceipts ⊢
    rw [hreceipts]
    rfl
  · rintro ⟨hroute, heq⟩
    rw [heq]
    exact ⟨(), validateCrossShardExecutionProofs_eq_ok.mpr
      ⟨hroute, fun _ => rfl, fun _ => rfl, rfl⟩, rfl⟩

end BeaconChain

/-! ## The writer as a machine -/

/-- The calls on an execution that was prepared. -/
inductive CrossShardCall where
  | validate
  | commit
  deriving DecidableEq, Repr

def CrossShardCall.action (chain : BeaconChain) :
    CrossShardCall → Procedure CrossShardTransactionError CrossShardExecution Unit
  | .validate => chain.validateCrossShardTransaction
  | .commit => chain.commitCrossShardTransaction

/-- The states of the writer. -/
inductive CrossShardStage where
  | prepared
  | validated
  | committed
  deriving DecidableEq, Repr

namespace CrossShardStage

/-- The phases that were done. -/
def phases : CrossShardStage → List CrossShardPhase
  | .prepared => [.prepare]
  | .validated => [.prepare, .validate]
  | .committed => [.prepare, .validate, .commit]

/-- The record of a transaction in a state. -/
def execution (transaction : Transaction) (stage : CrossShardStage) : CrossShardExecution where
  transaction := transaction
  txHash := buildCrossShardTransactionHash transaction
  sourcePrepared := true
  destinationValidated := stage ≠ .prepared
  committed := stage = .committed
  receipts := stage.phases.map
    (buildCrossShardReceipt transaction (buildCrossShardTransactionHash transaction))

theorem txHash_execution (transaction : Transaction) (stage : CrossShardStage) :
    (stage.execution transaction).txHash =
      buildCrossShardTransactionHash (stage.execution transaction).transaction := rfl

/-- The transitions: validation, then the commit, and no others. -/
def next : CrossShardCall → CrossShardStage → Except CrossShardTransactionError CrossShardStage
  | .validate, .prepared => .ok .validated
  | .validate, .validated => .error .destinationAlreadyValidated
  | .validate, .committed => .error .destinationAlreadyValidated
  | .commit, .prepared => .error .destinationShardNotValidated
  | .commit, .validated => .ok .committed
  | .commit, .committed => .error .alreadyCommitted

theorem validated_of_committed (transaction : Transaction) (stage : CrossShardStage)
    (h : (stage.execution transaction).committed) :
    (stage.execution transaction).destinationValidated := by
  obtain rfl : stage = .committed := of_decide_eq_true h
  rfl

end CrossShardStage

namespace BeaconChain

variable {chain : BeaconChain} {transaction : Transaction}

theorem prepareCrossShardTransaction_eq_ok {execution : CrossShardExecution} :
    chain.prepareCrossShardTransaction transaction = .ok execution ↔
      validateCrossShardRoute transaction chain.config.shardCount = .ok () ∧
        execution = CrossShardStage.prepared.execution transaction := by
  rw [prepareCrossShardTransaction, Except.bind_eq_ok]
  constructor
  · rintro ⟨⟨⟩, hroute, hexecution⟩
    exact ⟨hroute, (Except.ok.inj hexecution).symm⟩
  · rintro ⟨hroute, rfl⟩
    exact ⟨(), hroute, rfl⟩

/-- **The calls are the transitions of the machine**, and a call that fails changes nothing. -/
theorem action_run_execution
    (hroute : validateCrossShardRoute transaction chain.config.shardCount = .ok ())
    (call : CrossShardCall) (stage : CrossShardStage) :
    (call.action chain).run (stage.execution transaction) = match stage.next call with
      | .ok stage' => (.ok (), stage'.execution transaction)
      | .error error => (.error error, stage.execution transaction) := by
  have hroute' : validateCrossShardRoute (stage.execution transaction).transaction
      chain.config.shardCount = .ok () := hroute
  cases call with
  | validate =>
    show chain.validateCrossShardTransaction.run _ = _
    rw [validateCrossShardTransaction, Procedure.read_bind_run, hroute']
    cases stage <;> rfl
  | commit =>
    show chain.commitCrossShardTransaction.run _ = _
    rw [commitCrossShardTransaction, Procedure.read_bind_run, hroute']
    cases stage <;> rfl

theorem validateCrossShardExecutionProofs_execution
    (hroute : validateCrossShardRoute transaction chain.config.shardCount = .ok ())
    (stage : CrossShardStage) :
    chain.validateCrossShardExecutionProofs (stage.execution transaction) = .ok () := by
  refine validateCrossShardExecutionProofs_eq_ok.mpr
    ⟨hroute, stage.validated_of_committed transaction, fun _ => rfl, ?_⟩
  cases stage <;> rfl

theorem isGloballyFinalized_execution
    (hroute : validateCrossShardRoute transaction chain.config.shardCount = .ok ())
    (stage : CrossShardStage) :
    chain.isCrossShardExecutionGloballyFinalized (stage.execution transaction) =
      .ok (stage = .committed) := by
  rw [isCrossShardExecutionGloballyFinalized,
    validateCrossShardExecutionProofs_execution hroute stage]
  cases stage <;> rfl

/-! ## Runs of calls -/

/-- The execution after some calls, whether they succeed or not. -/
def afterCalls (chain : BeaconChain) (execution : CrossShardExecution)
    (calls : List CrossShardCall) : CrossShardExecution :=
  calls.foldl (fun execution call => ((call.action chain).run execution).2) execution

/-- How many commits of a run succeed. -/
def successfulCommits (chain : BeaconChain) : CrossShardExecution → List CrossShardCall → ℕ
  | _, [] => 0
  | execution, call :: calls =>
    let outcome := (call.action chain).run execution
    (if call = .commit ∧ outcome.1.isOk then 1 else 0) + chain.successfulCommits outcome.2 calls

/-- **What holds of an execution after a run of calls.** -/
structure ProtocolSound (chain : BeaconChain) (execution : CrossShardExecution)
    (calls : List CrossShardCall) (after : CrossShardExecution) : Prop where
  committed : after.committed → after.destinationValidated
  validated : after.destinationValidated → after.sourcePrepared
  phases : after.receipts.map CrossShardReceipt.phase =
    [CrossShardPhase.prepare, .validate, .commit].take (after.sourcePrepared.toNat +
      after.destinationValidated.toNat + after.committed.toNat)
  failure : ∀ (call : CrossShardCall) error after',
    (call.action chain).run after = (.error error, after') → after' = after
  transaction : after.transaction = execution.transaction
  txHash : after.txHash = execution.txHash
  proofs : chain.validateCrossShardExecutionProofs after = .ok ()
  finalized : chain.isCrossShardExecutionGloballyFinalized after =
    .ok (0 < chain.successfulCommits execution calls)
  once : chain.successfulCommits execution calls ≤ 1

/-- A run goes through the states of the machine, and its commits that succeed are those that reach
the last state. -/
theorem afterCalls_execution
    (hroute : validateCrossShardRoute transaction chain.config.shardCount = .ok ())
    (calls : List CrossShardCall) (stage : CrossShardStage) :
    ∃ stage' : CrossShardStage, chain.afterCalls (stage.execution transaction) calls =
        stage'.execution transaction ∧
      (if stage = .committed then 1 else 0) +
          chain.successfulCommits (stage.execution transaction) calls =
        if stage' = .committed then 1 else 0 := by
  induction calls generalizing stage with
  | nil => exact ⟨stage, rfl, rfl⟩
  | cons call calls ih =>
    have hrun := action_run_execution hroute call stage
    rw [afterCalls, List.foldl_cons, successfulCommits]
    cases hnext : stage.next call with
    | error error =>
      rw [hnext] at hrun
      obtain ⟨stage', hafter, hcommits⟩ := ih stage
      refine ⟨stage', ?_, ?_⟩
      · rw [hrun]
        exact hafter
      · rw [hrun]
        simpa [Except.isOk, Except.toBool] using hcommits
    | ok stage₁ =>
      rw [hnext] at hrun
      obtain ⟨stage', hafter, hcommits⟩ := ih stage₁
      refine ⟨stage', ?_, ?_⟩
      · rw [hrun]
        exact hafter
      · rw [hrun]
        cases call <;> cases stage <;> cases hnext <;>
          simpa [Except.isOk, Except.toBool] using hcommits

end BeaconChain

/-- **The cross-shard protocol is sound**: after every run of calls on a prepared transaction, the
record is what its flags say, the checker accepts it, and it is finalized from the one commit on
that succeeds. -/
theorem cross_shard_protocol_sound (chain : BeaconChain) (transaction : Transaction)
    (execution : CrossShardExecution)
    (hprepare : chain.prepareCrossShardTransaction transaction = .ok execution)
    (calls : List CrossShardCall) :
    chain.ProtocolSound execution calls (chain.afterCalls execution calls) := by
  obtain ⟨hroute, rfl⟩ := BeaconChain.prepareCrossShardTransaction_eq_ok.mp hprepare
  obtain ⟨stage, hafter, hcommits⟩ := BeaconChain.afterCalls_execution hroute calls .prepared
  rw [if_neg (by decide), zero_add] at hcommits
  rw [hafter]
  refine ⟨stage.validated_of_committed transaction, fun _ => rfl, ?_,
    fun call error after' hrun => ?_, rfl, rfl,
    BeaconChain.validateCrossShardExecutionProofs_execution hroute stage, ?_, ?_⟩
  · cases stage <;> rfl
  · rw [BeaconChain.action_run_execution hroute] at hrun
    split at hrun
    · cases hrun
    · exact (Prod.mk.inj hrun).2.symm
  · rw [BeaconChain.isGloballyFinalized_execution hroute, hcommits]
    cases stage <;> rfl
  · rw [hcommits]
    split <;> decide

/-! ## What finality says about the transaction -/

/-- Preparing, validating and committing a transaction produces an execution. -/
def BeaconChain.Produces (chain : BeaconChain) (transaction : Transaction)
    (execution : CrossShardExecution) : Prop :=
  ∃ prepared validated, chain.prepareCrossShardTransaction transaction = .ok prepared ∧
    chain.validateCrossShardTransaction.run prepared = (.ok (), validated) ∧
    chain.commitCrossShardTransaction.run validated = (.ok (), execution)

/-- Two transactions go from one shard to the same other one. -/
def Transaction.SameRoute (a b : Transaction) : Prop :=
  a.sourceShard = b.sourceShard ∧ a.destinationShard = b.destinationShard

section Finality

variable {chain : BeaconChain} {transaction transaction' : Transaction}

theorem BeaconChain.produces_committed
    (hroute : validateCrossShardRoute transaction chain.config.shardCount = .ok ()) :
    chain.Produces transaction (CrossShardStage.committed.execution transaction) :=
  ⟨_, _, prepareCrossShardTransaction_eq_ok.mpr ⟨hroute, rfl⟩,
    action_run_execution hroute .validate .prepared, action_run_execution hroute .commit .validated⟩

theorem Transaction.SameRoute.validateCrossShardRoute (h : transaction.SameRoute transaction')
    (shardCount : UInt16) :
    Prims.validateCrossShardRoute transaction shardCount =
      Prims.validateCrossShardRoute transaction' shardCount := by
  rw [Prims.validateCrossShardRoute, Prims.validateCrossShardRoute, Transaction.isCrossShard,
    Transaction.isCrossShard, h.1, h.2]

/-- A receipt has the route of the transaction and nothing else of it. -/
theorem buildCrossShardReceipt_eq_iff (txHash : Bytes) (phase : CrossShardPhase) :
    buildCrossShardReceipt transaction txHash phase =
        buildCrossShardReceipt transaction' txHash phase ↔
      transaction.SameRoute transaction' := by
  constructor
  · intro h
    exact ⟨congrArg CrossShardReceipt.sourceShard h, congrArg CrossShardReceipt.destinationShard h⟩
  · rintro ⟨hsource, hdestination⟩
    rw [buildCrossShardReceipt, buildCrossShardReceipt, hsource, hdestination]

/-- **Putting another transaction into a finalized record** goes unnoticed if and only if it has the
same route. -/
theorem validateCrossShardExecutionProofs_replace {execution : CrossShardExecution}
    (hfinal : chain.isCrossShardExecutionGloballyFinalized execution = .ok true) :
    chain.validateCrossShardExecutionProofs { execution with transaction } = .ok () ↔
      transaction.SameRoute execution.transaction := by
  obtain ⟨hroute, heq⟩ := BeaconChain.isGloballyFinalized_eq_true_iff.mp hfinal
  rw [heq, BeaconChain.validateCrossShardExecutionProofs_eq_ok]
  constructor
  · rintro ⟨-, -, -, hreceipts⟩
    have hhead := (List.cons.inj hreceipts).1
    exact ((buildCrossShardReceipt_eq_iff _ _).mp hhead.symm)
  · intro hsame
    refine ⟨?_, fun _ => rfl, fun _ => rfl, ?_⟩
    · rw [← hroute]
      exact hsame.validateCrossShardRoute _
    · apply List.map_congr_left
      intro phase _
      exact ((buildCrossShardReceipt_eq_iff _ _).mpr hsame).symm

end Finality

/-- **What finality vouches for**: a finalized record is the one that the protocol produces for its
transaction if and only if its hash is the hash of the transaction, which the checker does not look
at; and it notices that another transaction was put in if and only if the route is another one. -/
theorem finality_vouches_iff (chain : BeaconChain) (execution : CrossShardExecution)
    (hfinal : chain.isCrossShardExecutionGloballyFinalized execution = .ok true) :
    (execution.txHash = buildCrossShardTransactionHash execution.transaction ∧
        chain.Produces execution.transaction execution ↔
      execution.txHash = buildCrossShardTransactionHash execution.transaction) ∧
    ∀ transaction, (∃ error,
        chain.validateCrossShardExecutionProofs { execution with transaction } = .error error) ↔
      ¬ transaction.SameRoute execution.transaction := by
  obtain ⟨hroute, heq⟩ := BeaconChain.isGloballyFinalized_eq_true_iff.mp hfinal
  refine ⟨⟨And.left, fun hhash => ⟨hhash, ?_⟩⟩, fun transaction => ?_⟩
  · have hcommitted : execution = CrossShardStage.committed.execution execution.transaction := by
      rw [heq, hhash]
      rfl
    rw [hcommitted]
    exact BeaconChain.produces_committed hroute
  · rw [← validateCrossShardExecutionProofs_replace hfinal]
    cases chain.validateCrossShardExecutionProofs { execution with transaction } <;> simp

/-! ## An example -/

def fourShards : BeaconChain := .new ⟨4⟩ []

/-- A transfer from shard 0 to shard 1. -/
def crossShardTransfer : Transaction where
  txType := .transfer
  sender := List.replicate 32 1
  recipient := List.replicate 32 2
  amount := 42
  fee := fixedTransactionFee
  nonce := 1
  sourceShard := 0
  destinationShard := 1
  signature := List.replicate 64 9
  data := none

/-- Its record when it is committed. -/
def finalizedTransfer : CrossShardExecution :=
  CrossShardStage.committed.execution crossShardTransfer

theorem validateCrossShardRoute_crossShardTransfer :
    validateCrossShardRoute crossShardTransfer fourShards.config.shardCount = .ok () := by decide

theorem crossShardTransfer_protocol_sound :
    ∃ execution, fourShards.prepareCrossShardTransaction crossShardTransfer = .ok execution ∧
      fourShards.ProtocolSound execution [.commit, .validate, .commit, .commit]
        (fourShards.afterCalls execution [.commit, .validate, .commit, .commit]) := by
  have hprepare := BeaconChain.prepareCrossShardTransaction_eq_ok.mpr
    ⟨validateCrossShardRoute_crossShardTransfer, rfl⟩
  exact ⟨_, hprepare, cross_shard_protocol_sound fourShards crossShardTransfer _ hprepare _⟩

theorem isGloballyFinalized_finalizedTransfer :
    fourShards.isCrossShardExecutionGloballyFinalized finalizedTransfer = .ok true :=
  BeaconChain.isGloballyFinalized_execution validateCrossShardRoute_crossShardTransfer .committed

theorem finalizedTransfer_vouches :
    fourShards.isCrossShardExecutionGloballyFinalized finalizedTransfer = .ok true ∧
      fourShards.Produces crossShardTransfer finalizedTransfer ∧
      ∃ error, fourShards.validateCrossShardExecutionProofs
        { finalizedTransfer with
          transaction := { crossShardTransfer with destinationShard := 2 } } = .error error := by
  obtain ⟨hvouches, hreplaced⟩ := finality_vouches_iff fourShards finalizedTransfer
    isGloballyFinalized_finalizedTransfer
  have hhash := CrossShardStage.committed.txHash_execution crossShardTransfer
  refine ⟨isGloballyFinalized_finalizedTransfer, (hvouches.mpr hhash).2, (hreplaced _).mpr ?_⟩
  rintro ⟨-, hdestination⟩
  exact absurd hdestination (by decide)

/-- **A transaction that was never committed**: with another amount, the record is still finalized,
and its hash is not the hash of its transaction. -/
theorem finalizedTransfer_other_amount :
    let execution := { finalizedTransfer with
      transaction := { crossShardTransfer with amount := 43 } }
    fourShards.validateCrossShardExecutionProofs execution = .ok () ∧
      fourShards.isCrossShardExecutionGloballyFinalized execution = .ok true ∧
      execution.txHash ≠ buildCrossShardTransactionHash execution.transaction := by
  intro execution
  have hproofs : fourShards.validateCrossShardExecutionProofs execution = .ok () :=
    (validateCrossShardExecutionProofs_replace isGloballyFinalized_finalizedTransfer).mpr ⟨rfl, rfl⟩
  refine ⟨hproofs, ?_, ?_⟩
  · rw [BeaconChain.isCrossShardExecutionGloballyFinalized, hproofs]
    rfl
  · show buildCrossShardTransactionHash crossShardTransfer ≠
      buildCrossShardTransactionHash { crossShardTransfer with amount := 43 }
    decide +kernel

end Prims
