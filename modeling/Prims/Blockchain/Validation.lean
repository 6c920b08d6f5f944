import Prims.Blockchain.Hash

/-!
# Validation of blocks and transactions

The checks of `blockchain/validation.rs`. A block is checked for its size, its parent, its Merkle
root and the signature of its header. The header is all that is signed, and it binds the
transactions through the Merkle root alone: it does not say how many there are, and a list whose
last transaction is repeated has the root of the shorter list whenever the tree repeats it anyway.

## Main definitions

* `validateBlock`: the checks on a block
* `validateTransactionNonce`, `validateTransactionBalance`, `validateTransactionSize`: the checks
  on a transaction

## Main results

* `validateBlock_ok`: what an accepted block satisfies
* `same_header_same_transactions_iff`: two accepted blocks with one header carry the same
  transactions if and only if they carry as many, unless there is a collision
-/

namespace Prims

open Bincode

/-- `MAX_TRANSACTION_SIZE_BYTES` -/
def maxTransactionSizeBytes : ℕ := 1048576

/-- `MAX_BLOCK_SIZE_BYTES` -/
def maxBlockSizeBytes : ℕ := 10485760

/-- The reasons a block is rejected. Writing the binary format does not fail, so there is no
serialization error. -/
inductive BlockValidationError where
  | blockTooLarge (size limit : ℕ)
  | invalidPreviousHash
  | invalidMerkleRoot
  | invalidValidatorKeyLength
  | invalidValidatorSignatureLength
  | invalidValidatorSignature
  deriving DecidableEq, Repr

/-- The reasons a transaction is rejected. -/
inductive TransactionValidationError where
  | nonceNotStrictlyGreater (lastNonce receivedNonce : UInt64)
  | amountMustBePositive
  | invalidFee (expected received : UInt64)
  | amountOverflow
  | insufficientBalance (balance required : UInt64)
  | transactionTooLarge (size limit : ℕ)
  deriving DecidableEq, Repr

/-! ## Blocks -/

/-- The signed bytes: the header with its signature cleared. -/
def unsignedBlockHeaderBytes (header : BlockHeader) : Bytes :=
  serialize { header with signature := [] }

def validateBlockSize (block : Block) : Except BlockValidationError Unit :=
  let size := (serialize block).length
  ensure (size < maxBlockSizeBytes) (.blockTooLarge size maxBlockSizeBytes)

section Block

variable (P : Primitives)

/-- The signature of the header, by the validator it names. -/
def validateBlockSignature (header : BlockHeader) : Except BlockValidationError Unit :=
  match header.validator.toVector? 32 with
  | none => .error .invalidValidatorKeyLength
  | some validator =>
    -- a key that is no curve point is reported as a bad length too
    if P.validKey validator then
      match header.signature.toVector? 64 with
      | none => .error .invalidValidatorSignatureLength
      | some signature =>
        if P.verify validator (unsignedBlockHeaderBytes header) signature then .ok ()
        else .error .invalidValidatorSignature
    else .error .invalidValidatorKeyLength

def validateBlock (block : Block) (expectedPreviousHash : Bytes) :
    Except BlockValidationError Unit := do
  validateBlockSize block
  ensure (block.header.previousHash = expectedPreviousHash) .invalidPreviousHash
  ensure (block.header.merkleRoot = (calculateMerkleRoot P block.transactions).toList)
    .invalidMerkleRoot
  validateBlockSignature P block.header

/-! ## Transactions -/

def validateTransactionNonce (transaction : Transaction) (senderAccount : Option Account) :
    Except TransactionValidationError Unit :=
  match senderAccount with
  | some account =>
    ensure (account.nonce < transaction.nonce)
      (.nonceNotStrictlyGreater account.nonce transaction.nonce)
  | none => .ok ()

def validateTransactionBalance (transaction : Transaction) (senderAccount : Option Account) :
    Except TransactionValidationError Unit := do
  ensure (transaction.amount ≠ 0) .amountMustBePositive
  ensure (transaction.fee = fixedTransactionFee)
    (.invalidFee fixedTransactionFee transaction.fee)
  match transaction.amount.checkedAdd transaction.fee with
  | none => .error .amountOverflow
  | some required =>
    let balance := (senderAccount.map Account.balance).getD 0
    ensure (required ≤ balance) (.insufficientBalance balance required)

def validateTransactionSize (transaction : Transaction) :
    Except TransactionValidationError Unit :=
  let size := (serialize transaction).length
  ensure (size < maxTransactionSizeBytes) (.transactionTooLarge size maxTransactionSizeBytes)

/-! ## What a header binds -/

variable {P}

/-- An accepted block is small, names its parent and its Merkle root, and is signed. -/
theorem validateBlock_ok {block : Block} {previousHash : Bytes} :
    validateBlock P block previousHash = .ok () ↔
      (serialize block).length < maxBlockSizeBytes ∧ block.header.previousHash = previousHash ∧
        block.header.merkleRoot = (calculateMerkleRoot P block.transactions).toList ∧
        validateBlockSignature P block.header = .ok () := by
  unfold validateBlock validateBlockSize
  rw [ensure_bind_eq_ok, ensure_bind_eq_ok, ensure_bind_eq_ok]

/-- The transactions of a small block are shorter than `2 ^ 64` in all their parts. -/
theorem fits_of_validateBlock {block : Block} {previousHash : Bytes}
    (h : validateBlock P block previousHash = .ok ()) :
    ∀ tx ∈ block.transactions, Codec.Fits tx := by
  have hsize := (validateBlock_ok.mp h).1
  have hfits : Codec.Fits block := by
    apply Codec.fits_of_length
    have : maxBlockSizeBytes < 2 ^ 64 := by decide
    omega
  obtain ⟨-, htransactions, -⟩ := hfits
  exact htransactions.2

/-- **What a header binds**: two accepted blocks with one header carry the same transactions, or
their Merkle computations exhibit a collision, if and only if they carry as many transactions, or
there is such a collision. -/
theorem same_header_same_transactions_iff (P : Primitives) (previousHash : Bytes)
    (block block' : Block) (h : validateBlock P block previousHash = .ok ())
    (h' : validateBlock P block' previousHash = .ok ()) (hheader : block.header = block'.header) :
    let messages := merkleMessages P block.transactions ++ merkleMessages P block'.transactions
    (block.transactions = block'.transactions ∨ Collision P.sha256 messages) ↔
      (block.transactions.length = block'.transactions.length ∨ Collision P.sha256 messages) := by
  intro messages
  constructor
  · rintro (heq | hcol)
    · exact .inl (congrArg List.length heq)
    · exact .inr hcol
  · rintro (hlen | hcol)
    · by_cases hcol : Collision P.sha256 messages
      · exact .inr hcol
      · left
        apply calculateMerkleRoot_injective (fits_of_validateBlock h) (fits_of_validateBlock h')
          hlen hcol
        apply Subtype.ext
        have hroot := (validateBlock_ok.mp h).2.2.1
        have hroot' := (validateBlock_ok.mp h').2.2.1
        rw [hheader] at hroot
        exact hroot.symm.trans hroot'
    · exact .inr hcol

end Block

/-! ## A repeated transaction -/

/-- An unsigned transfer; the checks on a block do not look at the signatures in it. -/
def sampleTransfer (nonce : UInt64) : Transaction where
  txType := .transfer
  sender := [1]
  recipient := [2]
  amount := 5
  fee := fixedTransactionFee
  nonce := nonce
  sourceShard := 0
  destinationShard := 0
  signature := []
  data := none

/-- The header of a block with the transfers of nonces 1, 2 and 3, signed with the key of the seed
`01..01`. -/
def sampleHeader : BlockHeader where
  version := 1
  previousHash := List.replicate 32 7
  merkleRoot := beBytes 32 0x7a95a05e5de820be84062e4d6fe662477d0c1b639e67dbc838b6c2dbb731df69
  timestamp := 1710000000
  height := 1
  validator := beBytes 32 0x8a88e3dd7409f195fd52db2d3cba5d72ca6709bf1d94121bf3748801b40f6f5c
  signature := beBytes 64
    0xe7fcff3ff1208f90ccc5f8626fb99988a4c7c82236ad002b707dcd6b36a7bcc46fd5f17ae4c55ab6177d14235f07953c10b46fb78ecd9de484da3d90773b4c08

/-- The primitives with the signature of the header. -/
def headerSignature : Primitives :=
  .recorded [{
    secretKey := .replicate 32 1
    publicKey := beVector 32 0x8a88e3dd7409f195fd52db2d3cba5d72ca6709bf1d94121bf3748801b40f6f5c
    message := unsignedBlockHeaderBytes sampleHeader
    signature := beVector 64
      0xe7fcff3ff1208f90ccc5f8626fb99988a4c7c82236ad002b707dcd6b36a7bcc46fd5f17ae4c55ab6177d14235f07953c10b46fb78ecd9de484da3d90773b4c08 }]

/-- The block with the three transfers. -/
def sampleBlock : Block := ⟨sampleHeader, [1, 2, 3].map sampleTransfer, []⟩

/-- The block with the last transfer repeated. -/
def repeatedBlock : Block := ⟨sampleHeader, [1, 2, 3, 3].map sampleTransfer, []⟩

/-- The digests of the tree: the three transfers, the two pairs above them, and the root. -/
def digest₁ : Bytes32 :=
  beVector 32 0x19c2c04dc416f8f54925bca414bb8b4341b17fa8f62133988bc0e614ad56dd0a

def digest₂ : Bytes32 :=
  beVector 32 0xd6ce961e1caec349a065211da46f60e0f05a09c6d7d2c3868b72500c28f44253

def digest₃ : Bytes32 :=
  beVector 32 0xc759448a3d0f50aee3dd991c35ba23a5ddf6cb35a25074a73e48ee2e437ab866

def digest₁₂ : Bytes32 :=
  beVector 32 0x28fda519ae1633b97601b2f383e2d7af9f2eb1477098b759f77eba8cfff7aabc

def digest₃₃ : Bytes32 :=
  beVector 32 0x1ffdfe1b0bce221b6f21d8d9526d4d4aaf9030b5beb210a93a1dd44839c330fd

def digestRoot : Bytes32 :=
  beVector 32 0x7a95a05e5de820be84062e4d6fe662477d0c1b639e67dbc838b6c2dbb731df69

/-- The digests by their messages. -/
def sampleDigests : List (Bytes × Bytes32) :=
  [(serialize (sampleTransfer 1), digest₁), (serialize (sampleTransfer 2), digest₂),
    (serialize (sampleTransfer 3), digest₃), (combined digest₁ digest₂, digest₁₂),
    (combined digest₃ digest₃, digest₃₃), (combined digest₁₂ digest₃₃, digestRoot)]

theorem sampleDigests_hash : ∀ entry ∈ sampleDigests, Sha256.hash entry.1 = entry.2 := by
  decide +kernel

theorem hash_sampleTransfer₁ : hashTransaction headerSignature (sampleTransfer 1) = digest₁ :=
  sampleDigests_hash (_, digest₁) (by simp [sampleDigests])

theorem hash_sampleTransfer₂ : hashTransaction headerSignature (sampleTransfer 2) = digest₂ :=
  sampleDigests_hash (_, digest₂) (by simp [sampleDigests])

theorem hash_sampleTransfer₃ : hashTransaction headerSignature (sampleTransfer 3) = digest₃ :=
  sampleDigests_hash (_, digest₃) (by simp [sampleDigests])

theorem sha256_combined₁₂ : headerSignature.sha256 (combined digest₁ digest₂) = digest₁₂ :=
  sampleDigests_hash (combined digest₁ digest₂, digest₁₂) (by simp [sampleDigests])

theorem sha256_combined₃₃ : headerSignature.sha256 (combined digest₃ digest₃) = digest₃₃ :=
  sampleDigests_hash (combined digest₃ digest₃, digest₃₃) (by simp [sampleDigests])

theorem sha256_combinedRoot : headerSignature.sha256 (combined digest₁₂ digest₃₃) = digestRoot :=
  sampleDigests_hash (combined digest₁₂ digest₃₃, digestRoot) (by simp [sampleDigests])

/-- Both lists of transactions have the root of the header. -/
theorem calculateMerkleRoot_sampleBlock :
    calculateMerkleRoot headerSignature sampleBlock.transactions = digestRoot ∧
      calculateMerkleRoot headerSignature repeatedBlock.transactions = digestRoot := by
  constructor <;>
    simp [calculateMerkleRoot, sampleBlock, repeatedBlock, Merkle.root, Merkle.reduce,
      Merkle.nextLevel, Merkle.pairs, hash_sampleTransfer₁, hash_sampleTransfer₂,
      hash_sampleTransfer₃, sha256_combined₁₂, sha256_combined₃₃, sha256_combinedRoot]

theorem validateBlock_sampleBlock :
    validateBlock headerSignature sampleBlock (List.replicate 32 7) = .ok () ∧
      validateBlock headerSignature repeatedBlock (List.replicate 32 7) = .ok () := by
  rw [validateBlock_ok, validateBlock_ok, calculateMerkleRoot_sampleBlock.1,
    calculateMerkleRoot_sampleBlock.2]
  decide +kernel

/-- The two Merkle computations hash the messages of the table and no others. -/
theorem sampleBlock_not_collision :
    ¬ Collision headerSignature.sha256
      (merkleMessages headerSignature sampleBlock.transactions ++
        merkleMessages headerSignature repeatedBlock.transactions) := by
  apply not_collision_of_table sampleDigests sampleDigests_hash (by decide +kernel)
  simp [merkleMessages, sampleBlock, repeatedBlock, Merkle.messages, Merkle.nextLevel,
    Merkle.pairs, hash_sampleTransfer₁, hash_sampleTransfer₂, hash_sampleTransfer₃,
    sha256_combined₁₂, sha256_combined₃₃, sampleDigests]

/-- **One header, two lists**: the block with its last transaction repeated has the header of the
block without, both are accepted, and there is no collision. -/
theorem repeatedBlock_same_header :
    validateBlock headerSignature sampleBlock (List.replicate 32 7) = .ok () ∧
      validateBlock headerSignature repeatedBlock (List.replicate 32 7) = .ok () ∧
      sampleBlock.header = repeatedBlock.header ∧
      ¬ (sampleBlock.transactions = repeatedBlock.transactions ∨
        Collision headerSignature.sha256
          (merkleMessages headerSignature sampleBlock.transactions ++
            merkleMessages headerSignature repeatedBlock.transactions)) := by
  refine ⟨validateBlock_sampleBlock.1, validateBlock_sampleBlock.2, rfl, ?_⟩
  rintro (heq | hcol)
  · exact absurd (congrArg List.length heq) (by decide)
  · exact sampleBlock_not_collision hcol

/-- The block with the three transfers and a receipt, which the header does not commit to. -/
def receiptedBlock : Block :=
  { sampleBlock with receipts := [⟨digest₁.toList, 0, 1, .prepare, digest₂.toList⟩] }

theorem validateBlock_receiptedBlock :
    validateBlock headerSignature receiptedBlock (List.replicate 32 7) = .ok () := by
  have hroot : calculateMerkleRoot headerSignature receiptedBlock.transactions = digestRoot :=
    calculateMerkleRoot_sampleBlock.1
  rw [validateBlock_ok, hroot]
  decide +kernel

/-- The block with a receipt and the block without have one header. -/
theorem receiptedBlock_same_transactions :
    sampleBlock ≠ receiptedBlock ∧
      let messages := merkleMessages headerSignature sampleBlock.transactions ++
        merkleMessages headerSignature receiptedBlock.transactions
      ((sampleBlock.transactions = receiptedBlock.transactions ∨
          Collision headerSignature.sha256 messages) ↔
        (sampleBlock.transactions.length = receiptedBlock.transactions.length ∨
          Collision headerSignature.sha256 messages)) := by
  refine ⟨fun h => absurd (congrArg (fun block : Block => block.receipts.length) h) (by decide), ?_⟩
  exact same_header_same_transactions_iff headerSignature (List.replicate 32 7) sampleBlock
    receiptedBlock validateBlock_sampleBlock.1 validateBlock_receiptedBlock rfl

end Prims
