import Prims.Lib.Bincode

/-!
# The data model of the chain

The records of `blockchain/types.rs`, field by field, with their binary format: the format of a
structure is the format of the tuple of its fields, and the format of an enumeration is given by
its variants in their order of declaration.

## Main definitions

* `Transaction`, `BlockHeader`, `Block`, `CrossShardReceipt`: what a block carries
* `Account`, `Contract`, `Validator`: what the store keeps
* `ContractCallPayload`: the data of a contract call
-/

namespace Prims

open Bincode

/-- `FIXED_TRANSACTION_FEE` -/
def fixedTransactionFee : UInt64 := 1

/-- The seven kinds of transaction. -/
inductive TransactionType where
  | transfer
  | stake (duration : UInt64)
  | unstake
  | publicToAnon
  | anonToPublic
  | deployContract
  | callContract
  deriving DecidableEq, Repr

/-- The variants of `TransactionType`; only `stake` has a field. -/
def TransactionType.variants : Variants TransactionType where
  tag
    | .transfer => 0
    | .stake _ => 1
    | .unstake => 2
    | .publicToAnon => 3
    | .anonToPublic => 4
    | .deployContract => 5
    | .callContract => 6
  body
    | .stake duration => serialize duration
    | _ => []
  decodeBody
    | 0, bs => .ok (.transfer, bs)
    | 1, bs => (Codec.decode bs).map fun p => (.stake p.1, p.2)
    | 2, bs => .ok (.unstake, bs)
    | 3, bs => .ok (.publicToAnon, bs)
    | 4, bs => .ok (.anonToPublic, bs)
    | 5, bs => .ok (.deployContract, bs)
    | 6, bs => .ok (.callContract, bs)
    | t, _ => .error (.invalidTag t.toNat)
  Fits _ := True
  decodeBody_body := by
    intro a _ rest
    cases a with
    | stake duration => exact decode_field TransactionType.stake trivial rest
    | _ => rfl
  decodeBody_sound := by
    intro t bs rest a h
    split at h
    case h_2 =>
      obtain ⟨duration, rfl, hbytes, -⟩ := decode_field_sound h
      exact ⟨rfl, hbytes, trivial⟩
    case h_8 => cases h
    all_goals
      obtain ⟨rfl, rfl⟩ := Prod.mk.inj (Except.ok.inj h)
      exact ⟨rfl, rfl, trivial⟩
  fits_of_length _ := trivial

instance : Codec TransactionType := Codec.ofVariants TransactionType.variants

/-- The phases of a cross-shard transaction. -/
inductive CrossShardPhase where
  | prepare
  | validate
  | commit
  deriving DecidableEq, Repr

/-- The variants of `CrossShardPhase`, none of which has a field. -/
def CrossShardPhase.variants : Variants CrossShardPhase where
  tag
    | .prepare => 0
    | .validate => 1
    | .commit => 2
  body _ := []
  decodeBody
    | 0, bs => .ok (.prepare, bs)
    | 1, bs => .ok (.validate, bs)
    | 2, bs => .ok (.commit, bs)
    | t, _ => .error (.invalidTag t.toNat)
  Fits _ := True
  decodeBody_body := by
    rintro (_ | _ | _) _ rest <;> rfl
  decodeBody_sound := by
    intro t bs rest a h
    split at h
    case h_4 => cases h
    all_goals
      obtain ⟨rfl, rfl⟩ := Prod.mk.inj (Except.ok.inj h)
      exact ⟨rfl, rfl, trivial⟩
  fits_of_length _ := trivial

instance : Codec CrossShardPhase := Codec.ofVariants CrossShardPhase.variants

structure CrossShardReceipt where
  txHash : Bytes
  sourceShard : UInt16
  destinationShard : UInt16
  phase : CrossShardPhase
  proof : Bytes
  deriving DecidableEq, Repr

instance : Codec CrossShardReceipt :=
  Codec.ofEquiv (β := Bytes × UInt16 × UInt16 × CrossShardPhase × Bytes)
    { toFun r := (r.txHash, r.sourceShard, r.destinationShard, r.phase, r.proof)
      invFun := fun (txHash, sourceShard, destinationShard, phase, proof) =>
        ⟨txHash, sourceShard, destinationShard, phase, proof⟩ }

/-- A signed transaction. The fields `sender` and `recipient` are `from` and `to` in the source. -/
structure Transaction where
  txType : TransactionType
  sender : Bytes
  recipient : Bytes
  amount : UInt64
  fee : UInt64
  nonce : UInt64
  sourceShard : UInt16
  destinationShard : UInt16
  signature : Bytes
  data : Option Bytes
  deriving DecidableEq, Repr

instance : Codec Transaction :=
  Codec.ofEquiv
    (β := TransactionType × Bytes × Bytes × UInt64 × UInt64 × UInt64 × UInt16 × UInt16 × Bytes ×
      Option Bytes)
    { toFun t := (t.txType, t.sender, t.recipient, t.amount, t.fee, t.nonce, t.sourceShard,
        t.destinationShard, t.signature, t.data)
      invFun := fun (txType, sender, recipient, amount, fee, nonce, sourceShard, destinationShard,
          signature, data) =>
        ⟨txType, sender, recipient, amount, fee, nonce, sourceShard, destinationShard, signature,
          data⟩ }

structure BlockHeader where
  version : UInt32
  previousHash : Bytes
  merkleRoot : Bytes
  timestamp : UInt64
  height : UInt64
  validator : Bytes
  signature : Bytes
  deriving DecidableEq, Repr

instance : Codec BlockHeader :=
  Codec.ofEquiv (β := UInt32 × Bytes × Bytes × UInt64 × UInt64 × Bytes × Bytes)
    { toFun h := (h.version, h.previousHash, h.merkleRoot, h.timestamp, h.height, h.validator,
        h.signature)
      invFun := fun (version, previousHash, merkleRoot, timestamp, height, validator,
          signature) =>
        ⟨version, previousHash, merkleRoot, timestamp, height, validator, signature⟩ }

structure Block where
  header : BlockHeader
  transactions : List Transaction
  receipts : List CrossShardReceipt
  deriving DecidableEq, Repr

instance : Codec Block :=
  Codec.ofEquiv (β := BlockHeader × List Transaction × List CrossShardReceipt)
    { toFun b := (b.header, b.transactions, b.receipts)
      invFun := fun (header, transactions, receipts) => ⟨header, transactions, receipts⟩ }

/-- The encoded size of a header, by the lengths of its byte strings. -/
theorem length_serialize_blockHeader (header : BlockHeader) :
    (serialize header).length = 52 + header.previousHash.length + header.merkleRoot.length +
      header.validator.length + header.signature.length := by
  show (serialize (header.version, header.previousHash, header.merkleRoot, header.timestamp,
    header.height, header.validator, header.signature)).length = _
  simp only [length_serialize_prod, length_serialize_uint32, length_serialize_uint64,
    length_serialize_bytes]
  omega

theorem length_serialize_block (block : Block) :
    (serialize block).length = (serialize block.header).length +
      (serialize block.transactions).length + (serialize block.receipts).length := by
  show (serialize (block.header, block.transactions, block.receipts)).length = _
  rw [length_serialize_prod, length_serialize_prod, add_assoc]

/-- The anonymous side of an account: the hint of its viewing key, and the commitments of the
notes it tracks. -/
structure AnonymousAccountState where
  viewingHint : Option Bytes := none
  noteCommitments : List Bytes := []
  deriving DecidableEq, Repr

instance : Codec AnonymousAccountState :=
  Codec.ofEquiv (β := Option Bytes × List Bytes)
    { toFun s := (s.viewingHint, s.noteCommitments)
      invFun := fun (viewingHint, noteCommitments) => ⟨viewingHint, noteCommitments⟩ }

structure Account where
  balance : UInt64
  nonce : UInt64
  codeHash : Option Bytes
  anonymousState : AnonymousAccountState
  deriving DecidableEq, Repr

instance : Codec Account :=
  Codec.ofEquiv (β := UInt64 × UInt64 × Option Bytes × AnonymousAccountState)
    { toFun a := (a.balance, a.nonce, a.codeHash, a.anonymousState)
      invFun := fun (balance, nonce, codeHash, anonymousState) =>
        ⟨balance, nonce, codeHash, anonymousState⟩ }

structure Contract where
  codeWasm : Bytes
  storageRoot : Bytes
  deriving DecidableEq, Repr

instance : Codec Contract :=
  Codec.ofEquiv (β := Bytes × Bytes)
    { toFun c := (c.codeWasm, c.storageRoot)
      invFun := fun (codeWasm, storageRoot) => ⟨codeWasm, storageRoot⟩ }

/-- What a `callContract` transaction carries in its data. -/
structure ContractCallPayload where
  method : String
  params : Bytes
  gasLimit : UInt64
  deriving DecidableEq, Repr

instance : Codec ContractCallPayload :=
  Codec.ofEquiv (β := String × Bytes × UInt64)
    { toFun p := (p.method, p.params, p.gasLimit)
      invFun := fun (method, params, gasLimit) => ⟨method, params, gasLimit⟩ }

structure Validator where
  address : Bytes
  stake : UInt64
  lockedUntil : UInt64
  deriving DecidableEq, Repr

end Prims
