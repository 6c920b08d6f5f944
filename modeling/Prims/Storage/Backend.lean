import Prims.Blockchain.Hash
import Prims.Lib.Simulation
import Prims.Lib.Store
import Prims.Storage.Keys

/-!
# The store

The store of `storage/mod.rs`: a RocksDB instance, which iterates over its entries in the order of
their keys, and typed accessors over it. Reads do not fail, but what they find may not decode. A
write may fail, and then it changes nothing; a batch is one write.

The contract operations are here too: a contract has a record with its code and the root of its
storage, and its slots are the entries under its storage prefix. The root is recomputed from all
slots after every write.

## Main definitions

* `Db`, `StorageM`: the store, and the procedures on it
* `getAccount`, `getContract`, `getContractStorage`: the reads
* `setContractStorage`, `commitContractStorageBatch`: the two ways to write slots
* `committed`: the entries after a list of slots was written and the root recomputed
* `Confined`: a procedure that only writes certain keys

## Main results

* `setContractStorage_run`, `commitContractStorageBatch_run`: both ways leave `committed`
* `committed_committed`: writing twice is writing once
-/

namespace Prims

open Bincode ByteMap

/-! ## The backend -/

/-- A store: its entries, and how many more writes the backend accepts (`none` when it accepts
all of them). -/
structure Db where
  entries : ByteMap := ∅
  writesLeft : Option ℕ := none

/-- The reasons a storage operation fails. -/
inductive StorageError where
  | decode (error : DecodeError)
  | backend
  | emptySender
  | emptyBytecode
  | contractAddressAlreadyExists
  | contractDoesNotExist
  deriving DecidableEq, Repr

abbrev StorageM := Procedure StorageError Db

/-- One write of the backend: it is done as a whole, or it fails and changes nothing. -/
def Db.write (f : ByteMap → ByteMap) : StorageM Unit := fun db =>
  match db.writesLeft with
  | some 0 => (.error .backend, db)
  | left => (.ok (), ⟨f db.entries, left.map Nat.pred⟩)

/-- A backend that accepts all writes goes on doing so. -/
theorem Db.write_run {f : ByteMap → ByteMap} {db : Db} (h : db.writesLeft = none) :
    (Db.write f).run db = (.ok (), ⟨f db.entries, none⟩) := by
  show Db.write f db = _
  rw [Db.write, h]
  rfl

/-- A write is done as a whole, or it fails and changes nothing. -/
theorem Db.write_cases (f : ByteMap → ByteMap) (db : Db) :
    (Db.write f).run db = (.error .backend, db) ∨
      ∃ left, (Db.write f).run db = (.ok (), ⟨f db.entries, left⟩) := by
  show Db.write f db = _ ∨ ∃ left, Db.write f db = _
  unfold Db.write
  split
  · exact .inl rfl
  · exact .inr ⟨_, rfl⟩

theorem Db.write_congr {f g : ByteMap → ByteMap} {db : Db} (h : f db.entries = g db.entries) :
    (Db.write f).run db = (Db.write g).run db := by
  show Db.write f db = Db.write g db
  rw [Db.write, Db.write, h]

def put (key value : Bytes) : StorageM Unit := Db.write fun entries => entries.insert key value

/-- A batch of writes, which is atomic. -/
def writeBatch (writes : List (Bytes × Bytes)) : StorageM Unit :=
  Db.write fun entries => entries.writeAll writes

/-! ### Confinement -/

/-- A procedure that changes entries only where `p` holds, whether it fails or not. -/
def Confined {α : Type} (p : Bytes → Prop) (m : StorageM α) : Prop :=
  ∀ db key, ¬ p key → (m.run db).2.entries[key]? = db.entries[key]?

section Confined

variable {α β : Type} {p : Bytes → Prop}

theorem confined_pure (a : α) : Confined p (pure a : StorageM α) := fun _ _ _ => rfl

theorem confined_read (f : Db → Except StorageError α) : Confined p (Procedure.read f) :=
  fun _ _ _ => rfl

theorem confined_write {f : ByteMap → ByteMap}
    (h : ∀ entries : ByteMap, ∀ key, ¬ p key → (f entries)[key]? = entries[key]?) :
    Confined p (Db.write f) := by
  intro db key hkey
  rcases Db.write_cases f db with hfail | ⟨left, hok⟩
  · rw [hfail]
  · rw [hok]
    exact h db.entries key hkey

theorem confined_put {key : Bytes} (hkey : p key) (value : Bytes) : Confined p (put key value) := by
  apply confined_write
  intro entries key' hkey'
  rw [ByteMap.getElem?_insert_eq, if_neg]
  rintro rfl
  exact hkey' hkey

theorem confined_writeBatch {writes : List (Bytes × Bytes)} (h : ∀ e ∈ writes, p e.1) :
    Confined p (writeBatch writes) := by
  apply confined_write
  intro entries key hkey
  rw [ByteMap.getElem?_writeAll, ByteMap.lastWrite_eq_none_of_forall, Option.none_or]
  rintro e he rfl
  exact hkey (h e he)

theorem Confined.bind {m : StorageM α} (hm : Confined p m) {f : α → StorageM β}
    (hf : ∀ a, Confined p (f a)) : Confined p (m >>= f) := by
  intro db key hkey
  have hfirst := hm db key hkey
  rw [Procedure.bind_run]
  rcases hrun : m.run db with ⟨result, db'⟩
  rw [hrun] at hfirst
  cases result with
  | error e => exact hfirst
  | ok a => exact (hf a db' key hkey).trans hfirst

end Confined

/-- Read a record and decode it. -/
def Db.getRecord {α : Type} [Codec α] (db : Db) (key : Bytes) : Except StorageError (Option α) :=
  match db.entries[key]? with
  | none => .ok none
  | some bytes => ((deserialize bytes).map some).mapError .decode

def getAccount (db : Db) (address : Bytes) : Except StorageError (Option Account) :=
  db.getRecord (accountKey address)

def getContract (db : Db) (address : Bytes) : Except StorageError (Option Contract) :=
  db.getRecord (contractKey address)

theorem getRecord_congr {α : Type} [Codec α] {db db' : Db} {key : Bytes}
    (h : db'.entries[key]? = db.entries[key]?) :
    (db'.getRecord key : Except StorageError (Option α)) = db.getRecord key := by
  rw [Db.getRecord, Db.getRecord, h]

theorem getRecord_eq_none {α : Type} [Codec α] {db : Db} {key : Bytes} :
    db.getRecord (α := α) key = .ok none ↔ db.entries[key]? = none := by
  unfold Db.getRecord
  cases db.entries[key]? with
  | none => simp
  | some bytes =>
    dsimp only
    generalize deserialize (α := α) bytes = decoded
    cases decoded <;> simp [Except.map, Except.mapError]

/-- A read does not fail in the backend. -/
theorem getRecord_ne_backend {α : Type} [Codec α] (db : Db) (key : Bytes) :
    db.getRecord (α := α) key ≠ .error .backend := by
  unfold Db.getRecord
  split
  · intro h
    cases h
  · next bytes _ =>
    cases deserialize (α := α) bytes <;> (intro h; cases h)

/-- A record that was read fits. -/
theorem fits_of_getRecord {α : Type} [Codec α] {db : Db} {key : Bytes} {a : α}
    (h : db.getRecord key = .ok (some a)) : Codec.Fits a := by
  unfold Db.getRecord at h
  split at h
  · cases h
  · next bytes hbytes =>
    rw [Except.mapError_eq_ok] at h
    cases hd : deserialize (α := α) bytes with
    | error e => simp [hd, Except.map] at h
    | ok b =>
      simp only [hd, Except.map, Except.ok.injEq, Option.some.injEq] at h
      subst h
      exact (of_deserialize hd).2

/-- A fitting record that is stored is read. -/
theorem getRecord_serialize {α : Type} [Codec α] {db : Db} {key : Bytes} {a : α}
    (ha : Codec.Fits a) (h : db.entries[key]? = some (serialize a)) :
    db.getRecord key = .ok (some a) := by
  rw [Db.getRecord, h]
  simp [deserialize_serialize ha, Except.map, Except.mapError]

/-! ## Contract storage -/

section Contracts

variable (P : Primitives)

/-- `get_contract`, when a missing contract is an error. -/
def requireContract (db : Db) (address : Bytes) : Except StorageError Contract := do
  match ← getContract db address with
  | none => .error .contractDoesNotExist
  | some contract => .ok contract

theorem requireContract_ne_backend (db : Db) (address : Bytes) :
    requireContract db address ≠ .error .backend := by
  have hread := getRecord_ne_backend (α := Contract) db (contractKey address)
  unfold requireContract getContract
  generalize db.getRecord (α := Contract) (contractKey address) = found at hread
  intro h
  rcases found with e | (_ | contract)
  · cases h
    exact hread rfl
  · cases h
  · cases h

def updateContract (address : Bytes) (contract : Contract) : StorageM Unit :=
  put (contractKey address) (serialize contract)

/-- The digests of a list of slots, one after the other. -/
def slotsPayload (slots : List (Bytes × Bytes)) : Bytes :=
  slots.flatMap fun e => (P.sha256 e.1).toList ++ (P.sha256 e.2).toList

def computeContractStorageRoot (db : Db) (address : Bytes) : Bytes32 :=
  let start := contractStoragePrefix address
  let entries := (db.entries.scan start).mergeSort fun left right => (compare left.1 right.1).isLE
  if entries = [] then P.sha256 []
  else P.sha256 (slotsPayload P (entries.map (cut start)))

def setContractStorage (address key value : Bytes) : StorageM Unit := do
  let contract ← Procedure.read fun db => requireContract db address
  put (contractStorageKey address key) value
  let storageRoot ← Procedure.read fun db => .ok (computeContractStorageRoot P db address)
  updateContract address { contract with storageRoot := storageRoot.toList }

def getContractStorage (db : Db) (address key : Bytes) : Except StorageError (Option Bytes) := do
  let _ ← requireContract db address
  return db.entries[contractStorageKey address key]?

/-- The slots of a contract with some writes over them, and their root. -/
def commitContractStorageBatch (address : Bytes) (writes : ByteMap) : StorageM Unit :=
  if writes.isEmpty then pure ()
  else do
    let contract ← Procedure.read fun db => requireContract db address
    let slotEntries ← Procedure.read fun db =>
      .ok ((db.entries.slots (contractStoragePrefix address)).writeAll writes.toList)
    let payload := slotsPayload P slotEntries.toList
    let storageRoot := if payload = [] then P.sha256 [] else P.sha256 payload
    writeBatch (writes.toList.map (fun e => (contractStorageKey address e.1, e.2)) ++
      [(contractKey address, serialize { contract with storageRoot := storageRoot.toList })])

/-! ## What the operations leave -/

/-- The root of a contract with the given slots. -/
def storageRootOf (slots : ByteMap) : Bytes32 := P.sha256 (slotsPayload P slots.toList)

/-- The entries after some slots were written. -/
def withSlots (entries : ByteMap) (address : Bytes) (writes : List (Bytes × Bytes)) : ByteMap :=
  entries.writeAll (writes.map fun e => (contractStorageKey address e.1, e.2))

/-- **The entries after a commit**: the slots are written, and the record of the contract has their
root. -/
def committed (entries : ByteMap) (address : Bytes) (contract : Contract)
    (writes : List (Bytes × Bytes)) : ByteMap :=
  let root := storageRootOf P ((withSlots entries address writes).slots
    (contractStoragePrefix address))
  (withSlots entries address writes).insert (contractKey address)
    (serialize { contract with storageRoot := root.toList })

variable {P}

/-- The entries that a scan returns are in order already, so sorting them does nothing. -/
theorem computeContractStorageRoot_eq (db : Db) (address : Bytes) :
    computeContractStorageRoot P db address =
      storageRootOf P (db.entries.slots (contractStoragePrefix address)) := by
  have hsorted : (db.entries.scan (contractStoragePrefix address)).mergeSort
      (fun left right => (compare left.1 right.1).isLE) =
        db.entries.scan (contractStoragePrefix address) := by
    apply List.mergeSort_of_pairwise
    refine (pairwise_scan _ _).imp fun {a b} h => ?_
    rw [h]
    rfl
  rw [storageRootOf, toList_slots, computeContractStorageRoot, hsorted]
  split
  · next h => rw [h]; rfl
  · rfl

theorem getElem?_withSlots_slot (entries : ByteMap) (address : Bytes)
    (writes : List (Bytes × Bytes)) (k : Bytes) :
    (withSlots entries address writes)[contractStorageKey address k]? =
      (lastWrite writes k).or entries[contractStorageKey address k]? := by
  rw [withSlots, getElem?_writeAll, lastWrite_map_key _ (contractStorageKey_injective address)]

theorem getElem?_withSlots_other (entries : ByteMap) (address : Bytes)
    (writes : List (Bytes × Bytes)) {key : Bytes}
    (h : ∀ k, key ≠ contractStorageKey address k) :
    (withSlots entries address writes)[key]? = entries[key]? := by
  rw [withSlots, getElem?_writeAll, lastWrite_eq_none_of_forall, Option.none_or]
  intro e he
  obtain ⟨e', -, rfl⟩ := List.mem_map.mp he
  exact (h e'.1).symm

/-- The slots of a contract do not depend on the contract records. -/
theorem slots_insert_contractKey (entries : ByteMap) (address address' record : Bytes) :
    slots (entries.insert (contractKey address') record) (contractStoragePrefix address) =
      entries.slots (contractStoragePrefix address) := by
  apply Std.ExtTreeMap.ext_getElem?
  intro k
  rw [getElem?_slots, getElem?_slots, getElem?_insert_eq, if_neg]
  exact (contractStorageKey_ne_contractKey address k address').symm

theorem slots_withSlots (entries : ByteMap) (address : Bytes) (writes : List (Bytes × Bytes)) :
    (withSlots entries address writes).slots (contractStoragePrefix address) =
      (entries.slots (contractStoragePrefix address)).writeAll writes := by
  apply Std.ExtTreeMap.ext_getElem?
  intro k
  rw [getElem?_slots, getElem?_writeAll, getElem?_slots]
  exact getElem?_withSlots_slot entries address writes k

/-! ### The two ways to write -/

theorem getElem?_committed_slot (entries : ByteMap) (address : Bytes) (contract : Contract)
    (writes : List (Bytes × Bytes)) (k : Bytes) :
    (committed P entries address contract writes)[contractStorageKey address k]? =
      (lastWrite writes k).or entries[contractStorageKey address k]? := by
  rw [committed, getElem?_insert_eq,
    if_neg (contractStorageKey_ne_contractKey address k address).symm, getElem?_withSlots_slot]

theorem getElem?_committed_contract (entries : ByteMap) (address : Bytes) (contract : Contract)
    (writes : List (Bytes × Bytes)) :
    (committed P entries address contract writes)[contractKey address]? =
      some (serialize { contract with
        storageRoot := (storageRootOf P ((committed P entries address contract writes).slots
          (contractStoragePrefix address))).toList }) := by
  rw [committed, slots_insert_contractKey, getElem?_insert_eq, if_pos rfl]

theorem getElem?_committed_other (entries : ByteMap) (address : Bytes) (contract : Contract)
    (writes : List (Bytes × Bytes)) {key : Bytes} (hcontract : key ≠ contractKey address)
    (h : ∀ k, key ≠ contractStorageKey address k) :
    (committed P entries address contract writes)[key]? = entries[key]? := by
  rw [committed, getElem?_insert_eq, if_neg hcontract.symm, getElem?_withSlots_other _ _ _ h]

/-- No slot and no contract record is an account. -/
theorem getElem?_committed_account (entries : ByteMap) (address : Bytes) (contract : Contract)
    (writes : List (Bytes × Bytes)) (address' : Bytes) :
    (committed P entries address contract writes)[accountKey address']? =
      entries[accountKey address']? :=
  getElem?_committed_other _ _ _ _ (contractKey_ne_accountKey _ _).symm
    fun k => (contractStorageKey_ne_accountKey _ k _).symm

/-- Only the last write to each key matters. -/
theorem committed_congr (entries : ByteMap) (address : Bytes) (contract : Contract)
    {writes writes' : List (Bytes × Bytes)}
    (h : ∀ k, lastWrite writes k = lastWrite writes' k) :
    committed P entries address contract writes = committed P entries address contract writes' := by
  have hslots : withSlots entries address writes = withSlots entries address writes' := by
    apply Std.ExtTreeMap.ext_getElem?
    intro key
    by_cases hkey : ∃ k, key = contractStorageKey address k
    · obtain ⟨k, rfl⟩ := hkey
      rw [getElem?_withSlots_slot, getElem?_withSlots_slot, h]
    · rw [not_exists] at hkey
      rw [getElem?_withSlots_other _ _ _ hkey, getElem?_withSlots_other _ _ _ hkey]
  rw [committed, committed, hslots]

/-- **Writing twice is writing once**: the second commit overwrites the record of the first. -/
theorem committed_committed (entries : ByteMap) (address : Bytes) (contract : Contract)
    (root : Bytes) (writes writes' : List (Bytes × Bytes)) :
    committed P (committed P entries address contract writes) address
        { contract with storageRoot := root } writes' =
      committed P entries address contract (writes ++ writes') := by
  have hslots : (withSlots (committed P entries address contract writes) address writes').slots
      (contractStoragePrefix address) =
        (withSlots entries address (writes ++ writes')).slots (contractStoragePrefix address) := by
    rw [slots_withSlots, slots_withSlots, committed, slots_insert_contractKey, slots_withSlots,
      writeAll, writeAll, writeAll, List.foldl_append]
  apply Std.ExtTreeMap.ext_getElem?
  intro key
  by_cases hcontract : key = contractKey address
  · subst hcontract
    rw [committed, getElem?_insert_eq, if_pos rfl, hslots, committed, getElem?_insert_eq,
      if_pos rfl]
  · by_cases hkey : ∃ k, key = contractStorageKey address k
    · obtain ⟨k, rfl⟩ := hkey
      rw [getElem?_committed_slot, getElem?_committed_slot, getElem?_committed_slot,
        lastWrite_append, Option.or_assoc]
    · rw [not_exists] at hkey
      rw [getElem?_committed_other _ _ _ _ hcontract hkey,
        getElem?_committed_other _ _ _ _ hcontract hkey,
        getElem?_committed_other _ _ _ _ hcontract hkey]

theorem fits_contract {codeWasm : Bytes} (h : codeWasm.length < 2 ^ 64) (root : Bytes32) :
    Codec.Fits (⟨codeWasm, root.toList⟩ : Contract) := by
  have hlen : root.toList.length < 2 ^ 64 := by
    rw [root.toList_length]
    decide
  exact ⟨⟨h, fun _ _ => trivial⟩, hlen, fun _ _ => trivial⟩

/-- A contract that was found fits, so it is found again after it is written. -/
theorem fits_of_requireContract {db : Db} {address : Bytes} {contract : Contract}
    (h : requireContract db address = .ok contract) (root : Bytes32) :
    Codec.Fits { contract with storageRoot := root.toList } := by
  have hfits : Codec.Fits contract := by
    unfold requireContract at h
    rw [Except.bind_eq_ok] at h
    obtain ⟨found, hfound, h⟩ := h
    cases found with
    | none => cases h
    | some found =>
      cases h
      exact fits_of_getRecord hfound
  exact fits_contract hfits.1.1 root

/-- A fitting record is found. -/
theorem requireContract_of_entry {db : Db} {address : Bytes} {contract : Contract}
    (hfits : Codec.Fits contract)
    (h : db.entries[contractKey address]? = some (serialize contract)) :
    requireContract db address = .ok contract := by
  unfold requireContract getContract
  rw [getRecord_serialize hfits h]
  rfl

/-- The record that a commit leaves is found. -/
theorem requireContract_committed {db db' : Db} {address : Bytes} {contract : Contract}
    (h : requireContract db address = .ok contract) {writes : List (Bytes × Bytes)}
    (hentries : db'.entries = committed P db.entries address contract writes) :
    requireContract db' address = .ok { contract with
      storageRoot := (computeContractStorageRoot P db' address).toList } := by
  have hrecord := getElem?_committed_contract (P := P) db.entries address contract writes
  rw [← hentries, ← computeContractStorageRoot_eq] at hrecord
  exact requireContract_of_entry (fits_of_requireContract h _) hrecord

/-- **A direct write** leaves the slot and the new root, when the backend accepts all writes. -/
theorem setContractStorage_run {db : Db} {address : Bytes} {contract : Contract}
    (h : requireContract db address = .ok contract) (hwrites : db.writesLeft = none)
    (key value : Bytes) :
    (setContractStorage P address key value).run db =
      (.ok (), ⟨committed P db.entries address contract [(key, value)], none⟩) := by
  have hslot : (put (contractStorageKey address key) value).run db =
      (.ok (), ⟨withSlots db.entries address [(key, value)], none⟩) := by
    rw [put, Db.write_run hwrites]
    rfl
  rw [setContractStorage, Procedure.read_bind_run, h]
  dsimp only
  -- the root is computed after the slot is in, and the record is written last
  rw [Procedure.bind_run_ok hslot, Procedure.read_bind_run, computeContractStorageRoot_eq]
  dsimp only
  rw [updateContract, put, Db.write_run rfl]
  rfl

/-- Without the contract, a write changes nothing. -/
theorem setContractStorage_run_missing {db : Db} {address : Bytes} {e : StorageError}
    (h : requireContract db address = .error e) (key value : Bytes) :
    ((setContractStorage P address key value).run db).2 = db := by
  rw [setContractStorage, Procedure.read_bind_run, h]

theorem commitContractStorageBatch_run_missing {db : Db} {address : Bytes} {e : StorageError}
    (h : requireContract db address = .error e) (writes : ByteMap) :
    ((commitContractStorageBatch P address writes).run db).2 = db := by
  rw [commitContractStorageBatch]
  split
  · rfl
  · rw [Procedure.read_bind_run, h]

/-- **A batch** is one write of the backend, which leaves the slots and the new root. -/
theorem commitContractStorageBatch_run {db : Db} {address : Bytes} {contract : Contract}
    (h : requireContract db address = .ok contract) {writes : ByteMap} (hne : writes ≠ ∅) :
    (commitContractStorageBatch P address writes).run db =
      (Db.write fun entries => committed P entries address contract writes.toList).run db := by
  have hempty : writes.isEmpty = false := by
    rw [← Bool.not_eq_true, Std.ExtTreeMap.isEmpty_iff]
    exact hne
  -- the source treats an empty payload apart, with the same digest
  have hpayload : ∀ payload : Bytes,
      (if payload = [] then P.sha256 [] else P.sha256 payload) = P.sha256 payload := by
    intro payload
    split
    · next hnil => rw [hnil]
    · rfl
  rw [commitContractStorageBatch, hempty, if_neg Bool.false_ne_true, Procedure.read_bind_run, h]
  dsimp only
  rw [Procedure.read_bind_run]
  dsimp only
  rw [hpayload, writeBatch]
  apply Db.write_congr
  rw [committed, slots_withSlots, writeAll, List.foldl_append]
  rfl

end Contracts

end Prims
