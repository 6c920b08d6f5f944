import Prims.Blockchain.Validation
import Prims.Consensus.Selection

/-!
# Block proposals

`propose_block`: the proposer takes transactions from the mempool, puts their Merkle root into a
header and signs it. The block is acceptable as far as its links and its signature go. Its size is
another matter: the mempool counts transactions and the validation counts bytes, and nothing keeps
the transactions of a block below the limit.

## Main definitions

* `proposeBlock`: the proposal, on the mempool

## Main results

* `length_serialize_proposedBlock`: the encoded size of a proposed block
* `proposed_block_valid_iff`: a proposed block is accepted if and only if it is small enough
-/

namespace Prims

open Bincode

/-- `max_transactions` must be greater than zero. -/
inductive ProposalError where
  | zeroMaxTransactions
  deriving DecidableEq, Repr

section Proposal

variable (P : Primitives) {n : ℕ}

/-- The signed bytes: the module has a copy of its own of the function that validation uses. -/
def Consensus.unsignedBlockHeaderBytes (header : BlockHeader) : Bytes :=
  serialize { header with signature := [] }

def signBlockHeader (header : BlockHeader) (secretKey : Bytes32) : Bytes :=
  (P.sign secretKey (Consensus.unsignedBlockHeaderBytes header)).toList

/-- The block with the given transactions, signed by the proposer. -/
def proposedBlock (proposer : Validator) (proposerSecretKey : Bytes32) (previousBlockHash : Bytes)
    (height timestamp : UInt64) (transactions : List Transaction) : Block :=
  let header : BlockHeader := {
    version := 1
    previousHash := previousBlockHash
    merkleRoot := (calculateMerkleRoot P transactions).toList
    timestamp
    height
    validator := proposer.address
    signature := [] }
  { header := { header with signature := signBlockHeader P header proposerSecretKey }
    transactions
    receipts := [] }

def proposeBlock (proposer : Validator) (proposerSecretKey : Bytes32) (previousBlockHash : Bytes)
    (height timestamp : UInt64) (maxTransactions : ℕ) :
    Procedure ProposalError (Mempool n) Block := do
  Procedure.lift (ensure (maxTransactions ≠ 0) .zeroMaxTransactions)
  let transactions ← Mempool.exec (Mempool.takeForBlock n maxTransactions)
  return proposedBlock P proposer proposerSecretKey previousBlockHash height timestamp transactions

/-- The scheme accepts the signatures it makes. -/
def Primitives.AcceptsOwnSignatures : Prop :=
  ∀ secretKey message, P.validKey (P.publicKey secretKey) = true ∧
    P.verify (P.publicKey secretKey) message (P.sign secretKey message) = true

variable {P}

/-- A proposal succeeds when it may take a transaction, and then its block is the one with the
selected transactions. -/
theorem proposeBlock_result {proposer : Validator} {proposerSecretKey : Bytes32}
    {previousBlockHash : Bytes} {height timestamp : UInt64} {maxTransactions : ℕ}
    (h : maxTransactions ≠ 0) (mempool : Mempool n) :
    ((proposeBlock P proposer proposerSecretKey previousBlockHash height timestamp
        maxTransactions).run mempool).1 =
      .ok (proposedBlock P proposer proposerSecretKey previousBlockHash height timestamp
        (mempool.selectedForBlock maxTransactions)) := by
  rw [proposeBlock, ensure, if_pos h, Procedure.bind_run_ok (Procedure.lift_run _ _),
    ← Mempool.takeForBlock_fst]
  rfl

/-- **The size of a proposed block**: the header and the two lengths take 196 bytes with a key of
32 bytes, and the previous hash and the transactions come on top. -/
theorem length_serialize_proposedBlock {proposer : Validator} (proposerSecretKey : Bytes32)
    (previousBlockHash : Bytes) (height timestamp : UInt64) (transactions : List Transaction)
    (haddress : proposer.address.length = 32) :
    (serialize (proposedBlock P proposer proposerSecretKey previousBlockHash height timestamp
      transactions)).length =
      196 + previousBlockHash.length +
        (transactions.map fun transaction => (serialize transaction).length).sum := by
  rw [length_serialize_block, length_serialize_blockHeader, length_serialize_list,
    length_serialize_list]
  simp only [proposedBlock, signBlockHeader, List.Vector.toList_length, haddress, List.map_nil,
    List.sum_nil]
  omega

/-- The signature of a proposed block verifies under the address of its proposer. -/
theorem validateBlockSignature_proposedBlock (hP : P.AcceptsOwnSignatures) {proposer : Validator}
    {proposerSecretKey : Bytes32}
    (haddress : proposer.address = (P.publicKey proposerSecretKey).toList)
    (previousBlockHash : Bytes) (height timestamp : UInt64) (transactions : List Transaction) :
    validateBlockSignature P (proposedBlock P proposer proposerSecretKey previousBlockHash height
      timestamp transactions).header = .ok () := by
  have haccepts := hP proposerSecretKey
  unfold validateBlockSignature proposedBlock signBlockHeader
  dsimp only
  rw [haddress, Bytes.toVector?_toList]
  dsimp only
  rw [if_pos (haccepts []).1, Bytes.toVector?_toList]
  -- the signature is cleared before it is checked, as it was before it was made
  exact if_pos (haccepts _).2

/-- **A proposed block is accepted if and only if it is small enough.** -/
theorem proposed_block_valid_iff (P : Primitives) (hP : P.AcceptsOwnSignatures) {n : ℕ}
    (mempool : Mempool n) {proposer : Validator} {proposerSecretKey : Bytes32}
    (haddress : proposer.address = (P.publicKey proposerSecretKey).toList)
    (previousBlockHash : Bytes) (height timestamp : UInt64) {maxTransactions : ℕ}
    (hmax : 0 < maxTransactions) :
    ∃ block, ((proposeBlock P proposer proposerSecretKey previousBlockHash height timestamp
        maxTransactions).run mempool).1 = .ok block ∧
      (validateBlock P block previousBlockHash = .ok () ↔
        196 + previousBlockHash.length + ((mempool.selectedForBlock maxTransactions).map
          fun transaction => (serialize transaction).length).sum < maxBlockSizeBytes) := by
  refine ⟨_, proposeBlock_result hmax.ne' mempool, ?_⟩
  have hlength : proposer.address.length = 32 := by
    rw [haddress, List.Vector.toList_length]
  rw [validateBlock_ok, length_serialize_proposedBlock _ _ _ _ _ hlength]
  constructor
  · exact And.left
  · intro hsize
    exact ⟨hsize, rfl, rfl, validateBlockSignature_proposedBlock hP haddress _ _ _ _⟩

end Proposal

/-! ## A block that is too large -/

/-- The primitives with the signature of the sample header. All other signatures are 64 zeros, and
these are accepted. -/
def proposalPrimitives : Primitives where
  sha256 := Sha256.hash
  validKey _ := true
  verify key message signature := signature = .replicate 64 0 ∨
    key.toList = sampleHeader.validator ∧ message = unsignedBlockHeaderBytes sampleHeader ∧
      signature.toList = sampleHeader.signature
  publicKey secretKey := if secretKey = .replicate 32 1 then ⟨sampleHeader.validator, rfl⟩
    else .replicate 32 0
  sign secretKey message :=
    if secretKey = .replicate 32 1 ∧ message = unsignedBlockHeaderBytes sampleHeader then
      ⟨sampleHeader.signature, rfl⟩
    else .replicate 64 0

theorem proposalPrimitives_acceptsOwnSignatures : proposalPrimitives.AcceptsOwnSignatures := by
  intro secretKey message
  refine ⟨rfl, ?_⟩
  apply decide_eq_true
  by_cases h : secretKey = .replicate 32 1 ∧ message = unsignedBlockHeaderBytes sampleHeader
  · have hsign : proposalPrimitives.sign secretKey message = ⟨sampleHeader.signature, rfl⟩ :=
      if_pos h
    have hkey : proposalPrimitives.publicKey secretKey = ⟨sampleHeader.validator, rfl⟩ :=
      if_pos h.1
    rw [hsign, hkey]
    exact .inr ⟨rfl, h.2, rfl⟩
  · have hsign : proposalPrimitives.sign secretKey message = .replicate 64 0 := if_neg h
    exact .inl hsign

def sampleProposer : Validator := ⟨sampleHeader.validator, 100000, 0⟩

/-- An unsigned transfer that carries a million bytes. -/
def bulkTransfer (nonce : UInt64) : Transaction :=
  { sampleTransfer nonce with data := some (List.replicate 1000000 0) }

/-- One partition with eleven of them. -/
def bulkMempool : Mempool 1 := fun _ => [1, 2, 3, 4, 5, 6, 7, 8, 9, 10, 11].map bulkTransfer

theorem length_serialize_bulkTransfer (nonce : UInt64) :
    (serialize (bulkTransfer nonce)).length = 1000067 := by
  have hdata : (serialize (bulkTransfer nonce).data).length = 1 + (8 + 1000000) := by
    show (1 :: serialize (List.replicate 1000000 (0 : UInt8))).length = _
    rw [List.length_cons, length_serialize_bytes, List.length_replicate]
  show (serialize (TransactionType.transfer, [(1 : UInt8)], [(2 : UInt8)], (5 : UInt64),
    fixedTransactionFee, nonce, (0 : UInt16), (0 : UInt16), ([] : Bytes),
    (bulkTransfer nonce).data)).length = _
  simp only [length_serialize_prod, length_serialize_bytes, length_serialize_uint64,
    length_serialize_uint16, hdata]
  rfl

/-- All eleven are selected. -/
theorem selectedForBlock_bulkMempool :
    bulkMempool.selectedForBlock 11 = [1, 2, 3, 4, 5, 6, 7, 8, 9, 10, 11].map bulkTransfer := by
  rfl

/-- **A rejected proposal**: every transaction passes its own check, and the block with all of them
is too large. -/
theorem bulkMempool_block_rejected :
    proposalPrimitives.AcceptsOwnSignatures ∧
      sampleProposer.address = (proposalPrimitives.publicKey (.replicate 32 1)).toList ∧
      (∀ i, ∀ transaction ∈ bulkMempool i, validateTransactionSize transaction = .ok ()) ∧
      ∃ block, ((proposeBlock proposalPrimitives sampleProposer (.replicate 32 1)
          (List.replicate 32 7) 1 1710000000 11).run bulkMempool).1 = .ok block ∧
        validateBlock proposalPrimitives block (List.replicate 32 7) ≠ .ok () := by
  refine ⟨proposalPrimitives_acceptsOwnSignatures, rfl, fun i transaction hmem => ?_, ?_⟩
  · obtain ⟨nonce, -, rfl⟩ := List.mem_map.mp hmem
    rw [validateTransactionSize, length_serialize_bulkTransfer]
    rfl
  · refine ⟨_, proposeBlock_result (by decide) bulkMempool, ?_⟩
    rw [Ne, validateBlock_ok, length_serialize_proposedBlock _ _ _ _ _ rfl,
      selectedForBlock_bulkMempool]
    simp only [List.map_cons, List.map_nil, length_serialize_bulkTransfer]
    rintro ⟨hsize, -⟩
    exact absurd hsize (by decide)

/-- One partition with three small transfers. -/
def sampleMempool : Mempool 1 := fun _ => [1, 2, 3].map sampleTransfer

theorem sampleMempool_block_valid_iff :
    proposalPrimitives.AcceptsOwnSignatures ∧
      sampleProposer.address = (proposalPrimitives.publicKey (.replicate 32 1)).toList ∧ 0 < 10 ∧
      ∃ block, ((proposeBlock proposalPrimitives sampleProposer (.replicate 32 1)
          (List.replicate 32 7) 1 1710000000 10).run sampleMempool).1 = .ok block ∧
        (validateBlock proposalPrimitives block (List.replicate 32 7) = .ok () ↔
          196 + (List.replicate 32 (7 : UInt8)).length + ((sampleMempool.selectedForBlock 10).map
            fun transaction => (serialize transaction).length).sum < maxBlockSizeBytes) :=
  ⟨proposalPrimitives_acceptsOwnSignatures, rfl, by decide,
    proposed_block_valid_iff proposalPrimitives proposalPrimitives_acceptsOwnSignatures
      sampleMempool rfl (List.replicate 32 7) 1 1710000000 (by decide)⟩

end Prims
