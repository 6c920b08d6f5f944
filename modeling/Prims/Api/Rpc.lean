import Prims.Blockchain.Validation
import Prims.Lib.Text
import Prims.Storage.Blocks
import Prims.Vm.Execution

/-!
# The RPC layer

What the methods of `api/mod.rs` share: their errors, hexadecimal text, and the views of blocks and
transactions that they return. A view has the numbers as they are and the byte strings as
hexadecimal text.

The source writes an error as a code and a text. Here an error is its reason, with the data that
the text has, and `RpcError.code` is its code.

## Main definitions

* `RpcError`, `RpcError.code`
* `decodeHex`, `encodeHex`
* `blockToRpc`, `transactionToRpc`, `receiptToRpc`

## Main results

* `decodeHex_encodeHex`: text that is written is read back
-/

namespace Prims

open Bincode

/-! ## Errors -/

/-- Why a transaction is rejected, beyond what `TransactionValidationError` has. -/
inductive TransactionRejection where
  | validation (error : TransactionValidationError)
  | senderKeyLength
  | signatureError (error : SignatureError)
  | invalidSignature
  | invalidFee (expected received : UInt64)
  | insufficientBalanceForFee (balance required : UInt64)
  | deployWithoutBytecode
  | deployEmptyBytecode
  | deployAmountNotZero (amount : UInt64)
  | deployEmptyTarget
  | callAmountNotZero (amount : UInt64)
  | callEmptyTarget
  | callWithoutPayload
  | callInvalidPayload (error : DecodeError)
  | callEmptyMethod
  | callZeroGasLimit
  | callFailed (error : VmError)

inductive RpcError where
  | invalidHex (fieldName : String)
  | notOneSelector
  | noSelector
  | invalidTransactionEncoding (error : DecodeError)
  | heightIndex (error : DecodeError)
  | loadBlock (height : UInt64) (error : StorageError)
  | loadIndexedBlock (height : UInt64) (error : StorageError)
  | loadSenderAccount (error : StorageError)
  | transactionRejected (rejection : TransactionRejection)

/-- `INVALID_PARAMS_CODE`, `INTERNAL_ERROR_CODE`, `VALIDATION_ERROR_CODE` -/
def RpcError.code : RpcError → ℤ
  | .invalidHex _ | .notOneSelector | .noSelector | .invalidTransactionEncoding _ => -32602
  | .heightIndex _ | .loadBlock _ _ | .loadIndexedBlock _ _ | .loadSenderAccount _ => -32603
  | .transactionRejected _ => -32010

/-! ## Hexadecimal text -/

/-- The digits of a text: without white space around it, and without a `0x` before them. -/
def hexText (value : String) : List Char :=
  let trimmed := Text.trim value.toList
  (['0', 'x'].isPrefixOf? trimmed).getD trimmed

def decodeHex (value fieldName : String) : Except RpcError Bytes :=
  (Text.hexDecode (hexText value)).okOr (.invalidHex fieldName)

def encodeHex (bytes : Bytes) : String := String.ofList (Text.hexEncode bytes)

/-- The digits of hexadecimal text have no `0x` before them. -/
theorem hexText_encodeHex (bytes : Bytes) : hexText (encodeHex bytes) = Text.hexEncode bytes := by
  rw [hexText, encodeHex, String.toList_ofList, Text.trim_hexEncode]
  cases bytes with
  | nil => rfl
  | cons b bytes =>
    have hx : Text.hexDigit (b.toNat % 16) ≠ 'x' :=
      Text.hexDigit_ne_x _ (Nat.mod_lt _ (by decide))
    show (List.isPrefixOf? ['0', 'x'] (Text.hexDigit (b.toNat / 16) ::
      Text.hexDigit (b.toNat % 16) :: Text.hexEncode bytes)).getD _ = _
    have hnone : List.isPrefixOf? ['0', 'x'] (Text.hexDigit (b.toNat / 16) ::
        Text.hexDigit (b.toNat % 16) :: Text.hexEncode bytes) = none := by
      simp [List.isPrefixOf?, hx.symm]
    rw [hnone]
    rfl

/-- **Text that is written is read back.** -/
theorem decodeHex_encodeHex (bytes : Bytes) (fieldName : String) :
    decodeHex (encodeHex bytes) fieldName = .ok bytes := by
  rw [decodeHex, hexText_encodeHex, Text.hexDecode_hexEncode]
  rfl

/-! ## Views -/

structure RpcBlockHeaderView where
  version : UInt32
  previousHash : String
  merkleRoot : String
  timestamp : UInt64
  height : UInt64
  validator : String
  signature : String
  deriving DecidableEq, Repr

/-- The fields `sender` and `recipient` are `from` and `to` in the source. -/
structure RpcTransactionView where
  txType : String
  stakeDuration : Option UInt64
  sender : String
  recipient : String
  amount : UInt64
  fee : UInt64
  nonce : UInt64
  sourceShard : UInt16
  destinationShard : UInt16
  signature : String
  data : Option String
  deriving DecidableEq, Repr

structure RpcCrossShardReceiptView where
  txHash : String
  sourceShard : UInt16
  destinationShard : UInt16
  phase : String
  proof : String
  deriving DecidableEq, Repr

structure RpcBlockResponse where
  hash : String
  header : RpcBlockHeaderView
  transactions : List RpcTransactionView
  receipts : List RpcCrossShardReceiptView
  deriving DecidableEq, Repr

def transactionTypeParts : TransactionType → String × Option UInt64
  | .transfer => ("Transfer", none)
  | .stake duration => ("Stake", some duration)
  | .unstake => ("Unstake", none)
  | .publicToAnon => ("PublicToAnon", none)
  | .anonToPublic => ("AnonToPublic", none)
  | .deployContract => ("DeployContract", none)
  | .callContract => ("CallContract", none)

def transactionToRpc (transaction : Transaction) : RpcTransactionView where
  txType := (transactionTypeParts transaction.txType).1
  stakeDuration := (transactionTypeParts transaction.txType).2
  sender := encodeHex transaction.sender
  recipient := encodeHex transaction.recipient
  amount := transaction.amount
  fee := transaction.fee
  nonce := transaction.nonce
  sourceShard := transaction.sourceShard
  destinationShard := transaction.destinationShard
  signature := encodeHex transaction.signature
  data := transaction.data.map encodeHex

/-- The name of a phase. -/
def CrossShardPhase.name : CrossShardPhase → String
  | .prepare => "Prepare"
  | .validate => "Validate"
  | .commit => "Commit"

def receiptToRpc (receipt : CrossShardReceipt) : RpcCrossShardReceiptView where
  txHash := encodeHex receipt.txHash
  sourceShard := receipt.sourceShard
  destinationShard := receipt.destinationShard
  phase := receipt.phase.name
  proof := encodeHex receipt.proof

def blockToRpc (P : Primitives) (block : Block) : RpcBlockResponse where
  hash := encodeHex (hashBlockHeader P block.header).toList
  header :=
    { version := block.header.version
      previousHash := encodeHex block.header.previousHash
      merkleRoot := encodeHex block.header.merkleRoot
      timestamp := block.header.timestamp
      height := block.header.height
      validator := encodeHex block.header.validator
      signature := encodeHex block.header.signature }
  transactions := block.transactions.map transactionToRpc
  receipts := block.receipts.map receiptToRpc

end Prims
