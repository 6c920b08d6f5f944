import Mathlib.Data.List.Destutter
import Mathlib.Data.String.Basic
import Prims.Api.Blocks
import Prims.Api.Height
import Prims.Api.SendTransaction
import Prims.Lib.Table
import Prims.Storage.Scanning

/-!
# Queries

The RPC methods that read the store. Blocks, transactions and accounts are found under their keys.
Validators and note commitments are collected by a scan, and sorted before they are returned: the
validators by their address, the commitments as text, without repetitions.

After any run of the writers the scan is in order already, and hexadecimal text is in the order of
the bytes that it writes. So the lists have every validator and every commitment of the store once,
in the order of the addresses and of the commitments.

## Main definitions

* `Rpc.getTransaction`, `Rpc.getBalance`, `Rpc.getValidators`, `Rpc.getNoteCommitments`,
  `Rpc.getInfo`: the methods
* `AnswersQueries`: the answers of a store that holds some maps

## Main results

* `Keyed.run`: after a run, a transaction is under its hash and a validator under its address
* `rpc_answers_queries`: the answers after a run
-/

namespace Prims

open Bincode ByteMap

/-! ## Methods -/

/-- Why a query fails. -/
inductive QueryError where
  | request (error : RpcError)
  | loadTransaction (error : StorageError)
  | loadAccount (error : StorageError)
  | decodeValidator (error : DecodeError)

/-- `INTERNAL_ERROR_CODE`, or the code of the request's own error -/
def QueryError.code : QueryError → ℤ
  | .request error => error.code
  | .loadTransaction _ | .loadAccount _ | .decodeValidator _ => -32603

structure RpcTransactionResponse where
  hash : String
  transaction : RpcTransactionView
  deriving DecidableEq, Repr

structure RpcBalanceResponse where
  address : String
  found : Bool
  balance : UInt64
  nonce : UInt64
  noteCommitmentCount : ℕ
  deriving DecidableEq, Repr

structure RpcValidatorView where
  address : String
  stake : UInt64
  lockedUntil : UInt64
  deriving DecidableEq, Repr

structure RpcInfoResponse where
  name : String
  rpcVersion : String
  storageBackend : String
  latestBlockHeight : Option UInt64
  mempoolSize : ℕ
  validatorCount : ℕ
  noteCommitmentCount : ℕ
  deriving DecidableEq, Repr

def accountToRpc (address : Bytes) (account : Account) : RpcBalanceResponse where
  address := encodeHex address
  found := true
  balance := account.balance
  nonce := account.nonce
  noteCommitmentCount := account.anonymousState.noteCommitments.length

def validatorToRpc (validator : Validator) : RpcValidatorView where
  address := encodeHex validator.address
  stake := validator.stake
  lockedUntil := validator.lockedUntil

/-- The answer about an account that is not there. -/
def missingAccount (address : Bytes) : RpcBalanceResponse where
  address := encodeHex address
  found := false
  balance := 0
  nonce := 0
  noteCommitmentCount := 0

namespace Rpc

def getTransaction (P : Primitives) (storage : Db) (hashHex : String) :
    Except QueryError (Option RpcTransactionResponse) := do
  let hashBytes ← (decodeHex hashHex "hash").mapError .request
  let transaction ← (Prims.getTransaction storage hashBytes).mapError .loadTransaction
  return transaction.map fun transaction =>
    ⟨encodeHex (hashTransaction P transaction).toList, transactionToRpc transaction⟩

def getBalance (storage : Db) (addressHex : String) : Except QueryError RpcBalanceResponse := do
  let address ← (decodeHex addressHex "address").mapError .request
  let account ← (getAccount storage address).mapError .loadAccount
  match account with
  | some account => return accountToRpc address account
  | none => return missingAccount address

def loadValidators (storage : Db) : Except QueryError (List Validator) :=
  (storage.entries.scan (utf8 "s:")).mapM fun entry =>
    (deserialize entry.2).mapError .decodeValidator

/-- The commitments are sorted as text, and repetitions are dropped. -/
def loadNoteCommitments (storage : Db) : List String :=
  let commitments := (storage.entries.scan (utf8 "n:")).filterMap fun entry =>
    ((utf8 "n:").isPrefixOf? entry.1).map encodeHex
  (commitments.mergeSort fun a b => a ≤ b).destutter (· ≠ ·)

def getValidators (storage : Db) : Except QueryError (List RpcValidatorView) := do
  let validators ← loadValidators storage
  return (sortByKey compare Validator.address validators).map validatorToRpc

def getNoteCommitments (storage : Db) : List String := loadNoteCommitments storage

def getInfo {n : ℕ} [NeZero n] (state : RpcState n) : Except QueryError RpcInfoResponse := do
  let validators ← loadValidators state.storage
  let noteCommitments := loadNoteCommitments state.storage
  return {
    name := "Prims"
    rpcVersion := "0.1"
    storageBackend := "rocksdb"
    latestBlockHeight := latestBlockHeight state.storage
    mempoolSize := (Interaction.run Mempool.handle (Mempool.len n) state.mempool).1
    validatorCount := validators.length
    noteCommitmentCount := noteCommitments.length }

end Rpc

/-! ## Records under their own keys -/

/-- A transaction is under its hash, and a validator under its address. -/
structure Keyed (P : Primitives) (m : TypedMaps) : Prop where
  transactions : ∀ hash transaction, m.transactions hash = some transaction →
    (hashTransaction P transaction.val).toList = hash
  validators : ∀ address validator, m.validators address = some validator →
    validator.val.address = address

/-- A write under the key of its value keeps the values under their keys. -/
theorem keyed_update {κ α : Type} [DecidableEq κ] {f : κ → Option α} {key : α → κ}
    (h : ∀ k a, f k = some a → key a = k) (v : α) :
    ∀ k a, Function.update f (key v) (some v) k = some a → key a = k := by
  intro k a hk
  rw [Function.update_apply] at hk
  split_ifs at hk with heq
  · rw [← Option.some.inj hk, heq]
  · exact h k a hk

variable {P : Primitives} {db : Db} {m : TypedMaps}

theorem Keyed.step (h : Keyed P m) (call : StoreCall) : Keyed P (m.step P call) := by
  obtain ⟨write, hfits⟩ := call
  cases write with
  | saveTransaction transaction =>
    exact ⟨keyed_update h.transactions ⟨transaction, hfits⟩, h.validators⟩
  | saveValidator validator =>
    exact ⟨h.transactions, keyed_update h.validators ⟨validator, hfits⟩⟩
  | deployContract sender codeWasm =>
    dsimp only [TypedMaps.step, TypedMaps.deploy]
    split_ifs <;> exact ⟨h.transactions, h.validators⟩
  | setContractStorage address key value =>
    dsimp only [TypedMaps.step, TypedMaps.writeSlots]
    split <;> exact ⟨h.transactions, h.validators⟩
  | commitContractStorageBatch address writes =>
    dsimp only [TypedMaps.step, TypedMaps.writeSlots]
    split_ifs
    · exact h
    · split <;> exact ⟨h.transactions, h.validators⟩
  | _ => exact ⟨h.transactions, h.validators⟩

/-- **Records are under their own keys** after any run. -/
theorem Keyed.run (calls : List StoreCall) : Keyed P (mapsRun P calls) := by
  induction calls using List.reverseRecOn with
  | nil => exact ⟨fun _ _ h => (nomatch h), fun _ _ h => (nomatch h)⟩
  | append_singleton calls call ih =>
    rw [mapsRun_concat]
    exact ih.step call

/-! ## Scans of a kind -/

/-- What follows the letter of a kind in the keys of a store. -/
def idsOf (db : Db) (kind : String) : List Bytes :=
  (db.entries.scan (utf8 kind)).map fun entry => entry.1.drop (utf8 kind).length

theorem idsOf_eq (db : Db) (kind : String) :
    idsOf db kind = ((db.entries.scan (utf8 kind)).map (cut (utf8 kind))).map Prod.fst := by
  rw [idsOf, List.map_map]
  rfl

theorem pairwise_idsOf (db : Db) (kind : String) :
    (idsOf db kind).Pairwise fun a b => compare a b = .lt := by
  rw [idsOf_eq, List.pairwise_map]
  exact db.entries.pairwise_map_cut_scan (utf8 kind)

theorem mem_idsOf {kind : String} {id : Bytes} :
    id ∈ idsOf db kind ↔ db.entries[prefixedKey kind id]?.isSome := by
  rw [idsOf_eq, List.mem_map, Option.isSome_iff_exists]
  constructor
  · rintro ⟨⟨id, value⟩, hmem, rfl⟩
    exact ⟨value, mem_map_cut_scan.mp hmem⟩
  · rintro ⟨value, hvalue⟩
    exact ⟨(id, value), mem_map_cut_scan.mpr hvalue, rfl⟩

theorem Refines.mem_validators (h : Refines db m) {address : Bytes} :
    address ∈ idsOf db "s:" ↔ (m.validators address).isSome := by
  have hrecord := h.records (.stake address)
  rw [mem_idsOf, ← stakeKey, ← LogicalKey.physical, hrecord, TypedMaps.record, Option.isSome_map]

theorem Refines.mem_notes (h : Refines db m) {commitment : Bytes} :
    commitment ∈ idsOf db "n:" ↔ (m.notes commitment).isSome := by
  have hrecord := h.records (.note commitment)
  rw [mem_idsOf, ← anonymousNoteKey, ← LogicalKey.physical, hrecord, TypedMaps.record,
    Option.isSome_map]

/-- **The validators that are loaded** are those of the maps, in the order of their addresses. -/
theorem Refines.loadValidators (h : Refines db m) :
    Rpc.loadValidators db =
      .ok ((idsOf db "s:").filterMap fun address => (m.validators address).map Subtype.val) := by
  rw [idsOf, List.filterMap_map]
  refine mapM_eq_ok_filterMap ?_
  rintro ⟨key, value⟩ hmem
  obtain ⟨⟨address, rfl⟩, hvalue⟩ := mem_scan.mp hmem
  rw [← prefixedKey, ← stakeKey, ← LogicalKey.physical, h.records, TypedMaps.record,
    Option.map_eq_some_iff] at hvalue
  obtain ⟨validator, hvalidator, rfl⟩ := hvalue
  refine ⟨validator.val, ?_, ?_⟩
  · rw [deserialize_serialize validator.property]
    rfl
  · simp [hvalidator]

/-- The loaded validators are in the order of their addresses. -/
theorem Keyed.pairwise_validators (h : Keyed P m) (db : Db) :
    ((idsOf db "s:").filterMap fun address => (m.validators address).map Subtype.val).Pairwise
      fun a b => compare a.address b.address = .lt := by
  refine (pairwise_idsOf db "s:").filterMap _ ?_
  intro a a' hlt v hv v' hv'
  obtain ⟨validator, hvalidator, rfl⟩ := Option.map_eq_some_iff.mp hv
  obtain ⟨validator', hvalidator', rfl⟩ := Option.map_eq_some_iff.mp hv'
  rwa [h.validators _ _ hvalidator, h.validators _ _ hvalidator']

/-- Hexadecimal text is in the order of the bytes. -/
theorem encodeHex_lt {a b : Bytes} (h : compare a b = .lt) : encodeHex a < encodeHex b := by
  rw [encodeHex, encodeHex, String.lt_iff_toList_lt, String.toList_ofList, String.toList_ofList]
  exact Text.hexEncode_lt h

/-- **The commitments that are loaded** are in order, so neither the sort nor the removal of
repetitions changes anything. -/
theorem loadNoteCommitments_eq (db : Db) :
    Rpc.loadNoteCommitments db = (idsOf db "n:").map encodeHex := by
  have hloaded : ((db.entries.scan (utf8 "n:")).filterMap fun entry =>
      ((utf8 "n:").isPrefixOf? entry.1).map encodeHex) = (idsOf db "n:").map encodeHex := by
    rw [idsOf, List.map_map, ← List.filterMap_eq_map]
    refine List.filterMap_congr ?_
    rintro ⟨key, value⟩ hmem
    obtain ⟨⟨commitment, rfl⟩, -⟩ := mem_scan.mp hmem
    have hstrip : (utf8 "n:").isPrefixOf? (utf8 "n:" ++ commitment) = some commitment :=
      List.isPrefixOf?_eq_some_iff_append_eq.mpr rfl
    simp [hstrip]
  have hsorted : ((idsOf db "n:").map encodeHex).Pairwise (· < ·) :=
    List.pairwise_map.mpr ((pairwise_idsOf db "n:").imp encodeHex_lt)
  have hle : ((idsOf db "n:").map encodeHex).Pairwise fun a b => decide (a ≤ b) = true :=
    hsorted.imp fun hlt => decide_eq_true (le_of_lt hlt)
  rw [Rpc.loadNoteCommitments, hloaded, List.mergeSort_of_pairwise hle]
  exact List.destutter_of_isChain _ _ (hsorted.imp fun hlt => ne_of_lt hlt).isChain

/-! ## Answers -/

/-- **The answers** of a store that holds some maps. The lists have each validator and each
commitment once, in order, and their lengths are the counts of `get_info`. -/
structure AnswersQueries (P : Primitives) (storage : Db) (m : TypedMaps) : Prop where
  block : ∀ height, Rpc.getBlock P storage { height := some height } =
    .ok ((m.blocks height).map fun block => blockToRpc P block.val)
  transaction : ∀ text hash, decodeHex text "hash" = .ok hash →
    Rpc.getTransaction P storage text =
      .ok ((m.transactions hash).map fun transaction =>
        ⟨encodeHex hash, transactionToRpc transaction.val⟩)
  balance : ∀ text address, decodeHex text "address" = .ok address →
    Rpc.getBalance storage text =
      .ok (((m.accounts address).map fun account => accountToRpc address account.val).getD
        (missingAccount address))
  lists : ∃ addresses commitments : List Bytes,
    addresses.Pairwise (fun a b => compare a b = .lt) ∧
    (∀ address, address ∈ addresses ↔ (m.validators address).isSome) ∧
    commitments.Pairwise (fun a b => compare a b = .lt) ∧
    (∀ commitment, commitment ∈ commitments ↔ (m.notes commitment).isSome) ∧
    Rpc.getValidators storage = .ok ((addresses.filterMap m.validators).map fun validator =>
      validatorToRpc validator.val) ∧
    Rpc.getNoteCommitments storage = commitments.map encodeHex ∧
    ∀ (n : ℕ) [NeZero n] (mempool : Mempool n),
      Rpc.getInfo ⟨storage, mempool⟩ = .ok {
        name := "Prims"
        rpcVersion := "0.1"
        storageBackend := "rocksdb"
        latestBlockHeight := latestBlockHeight storage
        mempoolSize := ((List.finRange n).map fun i => (mempool i).length).sum
        validatorCount := addresses.length
        noteCommitmentCount := commitments.length }

theorem Refines.answersQueries (h : Refines db m) (hkeyed : Keyed P m) : AnswersQueries P db m where
  block height := by
    have hget := h.serves.block height
    show ((Prims.getBlock db height).mapError _ >>= fun block => _) = _
    rw [hget]
    show Except.ok ((Option.map Subtype.val _).map _) = _
    rw [Option.map_map]
    rfl
  transaction text hash htext := by
    have hget := h.serves.transaction hash
    rw [Rpc.getTransaction, htext]
    show ((Prims.getTransaction db hash).mapError _ >>= fun transaction => _) = _
    rw [hget]
    cases htransaction : m.transactions hash with
    | none => rfl
    | some transaction =>
      rw [← hkeyed.transactions hash transaction htransaction]
      rfl
  balance text address htext := by
    have hget := h.serves.account address
    rw [Rpc.getBalance, htext]
    show ((getAccount db address).mapError _ >>= fun account => _) = _
    rw [hget]
    cases m.accounts address <;> rfl
  lists := by
    refine ⟨idsOf db "s:", idsOf db "n:", pairwise_idsOf _ _, fun _ => h.mem_validators,
      pairwise_idsOf _ _, fun _ => h.mem_notes, ?_, loadNoteCommitments_eq db,
      fun n _ mempool => ?_⟩
    · have hsorted := (hkeyed.pairwise_validators db).imp fun {a b} hlt =>
        (show (compare a.address b.address).isLE by rw [hlt]; rfl)
      rw [Rpc.getValidators, h.loadValidators]
      show Except.ok ((sortByKey compare Validator.address _).map validatorToRpc) = _
      rw [sortByKey_eq_self hsorted, List.map_filterMap, List.map_filterMap]
      simp only [Option.map_map]
      rfl
    · have hsome : ∀ address ∈ idsOf db "s:", (m.validators address).isSome :=
        fun _ => h.mem_validators.mp
      have hpending := Mempool.run_len (List.finRange n) 0 mempool
      rw [Nat.zero_add] at hpending
      rw [Rpc.getInfo, h.loadValidators, loadNoteCommitments_eq, Mempool.len, hpending]
      simpa [bind, Except.bind, pure, Except.pure] using hsome

/-- **Queries after a run**: blocks, transactions and accounts are those that were written last
under their keys, and validators and commitments are listed once each, in order. -/
theorem rpc_answers_queries (P : Primitives) (calls : List StoreCall) :
    AnswersQueries P (storeRun P calls) (mapsRun P calls) :=
  (refines_run calls).answersQueries (Keyed.run calls)

end Prims
