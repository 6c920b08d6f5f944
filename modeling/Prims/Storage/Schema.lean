import Prims.Consensus.Votes
import Prims.Storage.Blocks
import Prims.Storage.Contracts
import Prims.Storage.Notes

/-!
# The schema of the store

Ten kinds of records live in one namespace of byte strings. Seen through its accessors the store is
a record of independent maps, one for each kind: a getter returns what was last written under its
own logical key, whatever was written under the others.

Every logical key has a physical key, and no two logical keys share one. A write to the store is
therefore a write to one of the maps. Writing the slots of a contract also writes the record of the
contract, with the new root and the code it had.

## Main definitions

* `saveTransaction`, `saveNoteMerkleRoot`, `saveValidator`: the remaining accessors
* `LogicalKey`, `LogicalKey.physical`: the keys of the schema and where they are stored
* `TypedMaps`: the store as a record of maps
* `TypedWrite`, `StoreCall`: the writers of the store, and their calls on values that fit

## Main results

* `LogicalKey.physical_injective`: logical keys do not share a physical key
* `refines_step`: a call on the store is the call on the maps
* `store_refines_typed_maps`: the getters after any run
-/

namespace Prims

open Bincode ByteMap

/-- An array is not empty, so it has an encoding. -/
local instance neZeroArray : NeZero 32 := ⟨by decide⟩

instance : Codec Validator :=
  Codec.ofEquiv (β := Bytes × UInt64 × UInt64)
    { toFun v := (v.address, v.stake, v.lockedUntil)
      invFun := fun (address, stake, lockedUntil) => ⟨address, stake, lockedUntil⟩ }

def saveTransaction (P : Primitives) (transaction : Transaction) : StorageM Bytes := do
  let txHash := (hashTransaction P transaction).toList
  put (transactionKey txHash) (serialize transaction)
  return txHash

def getTransaction (db : Db) (hash : Bytes) : Except StorageError (Option Transaction) :=
  db.getRecord (transactionKey hash)

def saveNoteMerkleRoot (shardId : Option UInt16) (root : Bytes32) : StorageM Unit :=
  put (noteMerkleRootKey shardId) (serialize root)

def getNoteMerkleRoot (db : Db) (shardId : Option UInt16) : Except StorageError (Option Bytes32) :=
  db.getRecord (noteMerkleRootKey shardId)

def saveValidator (validator : Validator) : StorageM Unit :=
  put (stakeKey validator.address) (serialize validator)

def getValidator (db : Db) (address : Bytes) : Except StorageError (Option Validator) :=
  db.getRecord (stakeKey address)

/-! ## Logical keys -/

/-- What a record is about. Contracts with slots have addresses of 32 bytes, as
`derive_contract_address` gives them. -/
inductive LogicalKey where
  | block (height : UInt64)
  | heightIndex (hash : Bytes)
  | transaction (hash : Bytes)
  | account (address : Bytes)
  | stake (address : Bytes)
  | contract (address : Bytes)
  | slot (address : Bytes32) (key : Bytes)
  | note (commitment : Bytes)
  | viewingHint (hint : Bytes32) (commitment : Bytes)
  | noteMerkleRoot (shardId : Option UInt16)
  deriving DecidableEq

theorem contractStorageKey_eq (address key : Bytes) :
    contractStorageKey address key = prefixedKey "m:" (address ++ utf8 ":" ++ key) :=
  List.append_assoc _ _ _

theorem viewingHintNoteKey_eq (viewingHint commitment : Bytes) :
    viewingHintNoteKey viewingHint commitment =
      prefixedKey "v:" (viewingHint ++ utf8 ":" ++ commitment) :=
  List.append_assoc _ _ _

namespace LogicalKey

/-- Where a record is stored. -/
def physical : LogicalKey → Bytes
  | .block height => blockKey height
  | .heightIndex hash => heightIndexKey hash
  | .transaction hash => transactionKey hash
  | .account address => accountKey address
  | .stake address => stakeKey address
  | .contract address => contractKey address
  | .slot address key => contractStorageKey address.toList key
  | .note commitment => anonymousNoteKey commitment
  | .viewingHint hint commitment => viewingHintNoteKey hint.toList commitment
  | .noteMerkleRoot shardId => noteMerkleRootKey shardId

/-- The letter of a kind of records. -/
def letter : LogicalKey → UInt8
  | .block _ => 98
  | .heightIndex _ => 104
  | .transaction _ => 116
  | .account _ => 97
  | .stake _ => 115
  | .contract _ => 99
  | .slot _ _ => 109
  | .note _ => 110
  | .viewingHint _ _ => 118
  | .noteMerkleRoot _ => 114

theorem head?_physical (key : LogicalKey) : key.physical.head? = some key.letter := by
  have hkind : ∀ {kind : String} {letter : UInt8} (suffix : Bytes),
      (utf8 kind).head? = some letter → (prefixedKey kind suffix).head? = some letter := by
    intro kind letter suffix h
    rw [prefixedKey, List.head?_append, h]
    rfl
  cases key with
  | block height => exact hkind _ (by decide : (utf8 "b:").head? = some 98)
  | heightIndex hash => exact hkind _ (by decide : (utf8 "h:").head? = some 104)
  | transaction hash => exact hkind _ (by decide : (utf8 "t:").head? = some 116)
  | account address => exact hkind _ (by decide : (utf8 "a:").head? = some 97)
  | stake address => exact hkind _ (by decide : (utf8 "s:").head? = some 115)
  | contract address => exact hkind _ (by decide : (utf8 "c:").head? = some 99)
  | slot address key =>
    rw [physical, contractStorageKey_eq]
    exact hkind _ (by decide : (utf8 "m:").head? = some 109)
  | note commitment => exact hkind _ (by decide : (utf8 "n:").head? = some 110)
  | viewingHint hint commitment =>
    rw [physical, viewingHintNoteKey_eq]
    exact hkind _ (by decide : (utf8 "v:").head? = some 118)
  | noteMerkleRoot shardId =>
    cases shardId <;> exact hkind _ (by decide : (utf8 "r:").head? = some 114)

/-- A part of fixed length, a colon and a rest are read off their concatenation. -/
theorem append_colon_inj {a b : Bytes32} {k k' : Bytes}
    (h : a.toList ++ utf8 ":" ++ k = b.toList ++ utf8 ":" ++ k') : a = b ∧ k = k' := by
  have hlength : (a.toList ++ utf8 ":").length = (b.toList ++ utf8 ":").length := by
    rw [List.length_append, List.length_append, a.toList_length, b.toList_length]
  obtain ⟨hfixed, hrest⟩ := List.append_inj h hlength
  exact ⟨List.Vector.toList_injective (List.append_cancel_right hfixed), hrest⟩

/-- **Logical keys do not share a physical key.** -/
theorem physical_injective : Function.Injective physical := by
  intro a b h
  have hletter : a.letter = b.letter := by
    have hhead := congrArg List.head? h
    rw [head?_physical, head?_physical] at hhead
    exact Option.some.inj hhead
  -- the letters tell the kinds apart, so only keys of one kind remain
  cases a <;> cases b <;> simp [letter] at hletter
  case block.block => exact congrArg block (blockKey_injective h)
  case slot.slot =>
    rw [physical, physical, contractStorageKey_eq, contractStorageKey_eq] at h
    obtain ⟨rfl, rfl⟩ := append_colon_inj (List.append_cancel_left h)
    rfl
  case viewingHint.viewingHint =>
    rw [physical, physical, viewingHintNoteKey_eq, viewingHintNoteKey_eq] at h
    obtain ⟨rfl, rfl⟩ := append_colon_inj (List.append_cancel_left h)
    rfl
  case noteMerkleRoot.noteMerkleRoot =>
    exact congrArg noteMerkleRoot (noteMerkleRootKey_injective h)
  all_goals exact congrArg _ (List.append_cancel_left h)

end LogicalKey

/-! ## Typed maps -/

/-- **The store as a record of maps**, one for each kind of records. -/
structure TypedMaps where
  blocks : UInt64 → Option (Fitting Block) := fun _ => none
  heights : Bytes → Option UInt64 := fun _ => none
  transactions : Bytes → Option (Fitting Transaction) := fun _ => none
  accounts : Bytes → Option (Fitting Account) := fun _ => none
  validators : Bytes → Option (Fitting Validator) := fun _ => none
  contracts : Bytes → Option (Fitting Contract) := fun _ => none
  slots : Bytes32 → ByteMap := fun _ => ∅
  notes : Bytes → Option ViewableNote := fun _ => none
  viewingIndex : Bytes32 × Bytes → Option Unit := fun _ => none
  noteMerkleRoots : Option UInt16 → Option Bytes32 := fun _ => none

/-- The record that the maps hold for a logical key. -/
def TypedMaps.record (m : TypedMaps) : LogicalKey → Option Bytes
  | .block height => (m.blocks height).map fun block => serialize block.val
  | .heightIndex hash => (m.heights hash).map serialize
  | .transaction hash => (m.transactions hash).map fun transaction => serialize transaction.val
  | .account address => (m.accounts address).map fun account => serialize account.val
  | .stake address => (m.validators address).map fun validator => serialize validator.val
  | .contract address => (m.contracts address).map fun contract => serialize contract.val
  | .slot address key => (m.slots address)[key]?
  | .note commitment => (m.notes commitment).map serialize
  | .viewingHint hint commitment => (m.viewingIndex (hint, commitment)).map fun _ => utf8 "1"
  | .noteMerkleRoot shardId => (m.noteMerkleRoots shardId).map serialize

/-! ## Writers -/

/-- The writers of the store, all but `put` and `delete`. -/
inductive TypedWrite where
  | saveBlock (block : Block)
  | saveTransaction (transaction : Transaction)
  | updateAccount (address : Bytes) (account : Account)
  | deployContract (sender codeWasm : Bytes)
  | updateContract (address : Bytes) (contract : Contract)
  | setContractStorage (address key value : Bytes)
  | commitContractStorageBatch (address : Bytes) (writes : ByteMap)
  | saveViewableNote (note : ViewableNote)
  | saveNoteMerkleRoot (shardId : Option UInt16) (root : Bytes32)
  | saveValidator (validator : Validator)

/-- The lengths of what is written are machine words, and contracts whose slots are written have
addresses of 32 bytes. -/
def TypedWrite.Fits : TypedWrite → Prop
  | .saveBlock block => Codec.Fits block
  | .saveTransaction transaction => Codec.Fits transaction
  | .updateAccount _ account => Codec.Fits account
  | .deployContract _ codeWasm => codeWasm.length < 2 ^ 64
  | .updateContract _ contract => Codec.Fits contract
  | .setContractStorage address _ _ | .commitContractStorageBatch address _ => address.length = 32
  | .saveViewableNote _ | .saveNoteMerkleRoot _ _ => True
  | .saveValidator validator => Codec.Fits validator

/-- A call of a writer. -/
abbrev StoreCall := { write : TypedWrite // write.Fits }

section Calls

variable (P : Primitives)

def TypedWrite.run : TypedWrite → StorageM Unit
  | .saveBlock block => do
    let _ ← Prims.saveBlock P block
    return ()
  | .saveTransaction transaction => do
    let _ ← Prims.saveTransaction P transaction
    return ()
  | .updateAccount address account => Prims.updateAccount address account
  | .deployContract sender codeWasm => do
    let _ ← Prims.deployContract P sender codeWasm
    return ()
  | .updateContract address contract => Prims.updateContract address contract
  | .setContractStorage address key value => Prims.setContractStorage P address key value
  | .commitContractStorageBatch address writes =>
    Prims.commitContractStorageBatch P address writes
  | .saveViewableNote note => Prims.saveViewableNote note
  | .saveNoteMerkleRoot shardId root => Prims.saveNoteMerkleRoot shardId root
  | .saveValidator validator => Prims.saveValidator validator

/-- A contract with another root. -/
def withRoot (contract : Fitting Contract) (root : Bytes32) : Fitting Contract :=
  ⟨{ contract.val with storageRoot := root.toList }, fits_contract contract.property.1.1 root⟩

/-- Write some slots of a contract. The record of the contract gets the new root and keeps its code;
without a contract nothing is written. -/
def TypedMaps.writeSlots (m : TypedMaps) (address : Bytes32) (writes : List (Bytes × Bytes)) :
    TypedMaps :=
  match m.contracts address.toList with
  | none => m
  | some contract =>
    { m with
      slots := Function.update m.slots address ((m.slots address).writeAll writes)
      contracts := Function.update m.contracts address.toList
        (some (withRoot contract (storageRootOf P ((m.slots address).writeAll writes)))) }

/-- Deploy a contract, at an address without an account and without a contract. -/
def TypedMaps.deploy (m : TypedMaps) (sender codeWasm : Bytes)
    (hcode : codeWasm.length < 2 ^ 64) : TypedMaps :=
  let address := (deriveContractAddress P sender codeWasm).toList
  if sender ≠ [] ∧ codeWasm ≠ [] ∧ (m.accounts address).isNone ∧ (m.contracts address).isNone then
    { m with
      contracts := Function.update m.contracts address
        (some ⟨⟨codeWasm, (P.sha256 []).toList⟩, fits_contract hcode (P.sha256 [])⟩)
      accounts := Function.update m.accounts address
        (some ⟨contractAccount P codeWasm, fits_contractAccount P codeWasm⟩) }
  else m

/-- What a call is on the maps. An empty batch writes nothing. -/
def TypedMaps.step (m : TypedMaps) : StoreCall → TypedMaps
  | ⟨.saveBlock block, h⟩ =>
    { m with
      blocks := Function.update m.blocks block.header.height (some ⟨block, h⟩)
      heights := Function.update m.heights (hashBlockHeader P block.header).toList
        (some block.header.height) }
  | ⟨.saveTransaction transaction, h⟩ =>
    { m with
      transactions := Function.update m.transactions (hashTransaction P transaction).toList
        (some ⟨transaction, h⟩) }
  | ⟨.updateAccount address account, h⟩ =>
    { m with accounts := Function.update m.accounts address (some ⟨account, h⟩) }
  | ⟨.deployContract sender codeWasm, h⟩ => m.deploy P sender codeWasm h
  | ⟨.updateContract address contract, h⟩ =>
    { m with contracts := Function.update m.contracts address (some ⟨contract, h⟩) }
  | ⟨.setContractStorage address key value, h⟩ => m.writeSlots P ⟨address, h⟩ [(key, value)]
  | ⟨.commitContractStorageBatch address writes, h⟩ =>
    if writes.isEmpty then m else m.writeSlots P ⟨address, h⟩ writes.toList
  | ⟨.saveViewableNote note, _⟩ =>
    { m with
      notes := Function.update m.notes note.commitment.toList (some note)
      viewingIndex := Function.update m.viewingIndex (note.viewingHint, note.commitment.toList)
        (some ()) }
  | ⟨.saveNoteMerkleRoot shardId root, _⟩ =>
    { m with noteMerkleRoots := Function.update m.noteMerkleRoots shardId (some root) }
  | ⟨.saveValidator validator, h⟩ =>
    { m with validators := Function.update m.validators validator.address (some ⟨validator, h⟩) }

/-! ## Refinement -/

/-- The store holds the records of the maps, and the backend accepts all writes. -/
structure Refines (db : Db) (m : TypedMaps) : Prop where
  writesLeft : db.writesLeft = none
  records : ∀ key : LogicalKey, db.entries[key.physical]? = m.record key

variable {P} {db : Db} {m m' : TypedMaps}

theorem map_update {κ α : Type} [DecidableEq κ] (f : κ → Option α) (a x : κ) (v : α)
    (g : α → Bytes) :
    (Function.update f a (some v) x).map g = if a = x then some (g v) else (f x).map g := by
  by_cases h : a = x
  · subst h
    rw [Function.update_self, if_pos rfl, Option.map_some]
  · rw [Function.update_of_ne (Ne.symm h), if_neg h]

/-- A write under a physical key is a write under its logical key. -/
theorem Refines.insert (h : Refines db m) (key : LogicalKey) {value : Bytes}
    (hrecord : ∀ key', m'.record key' = if key = key' then some value else m.record key') :
    Refines ⟨db.entries.insert key.physical value, none⟩ m' := by
  refine ⟨rfl, fun key' => ?_⟩
  rw [getElem?_insert_eq, h.records, hrecord]
  exact if_congr LogicalKey.physical_injective.eq_iff rfl rfl

theorem Refines.put (h : Refines db m) (key : LogicalKey) {value : Bytes}
    (hrecord : ∀ key', m'.record key' = if key = key' then some value else m.record key') :
    Refines ((Prims.put key.physical value).run db).2 m' := by
  rw [Prims.put, Db.write_run h.writesLeft]
  exact h.insert key hrecord

/-- The slots of a contract are those of the maps. -/
theorem Refines.slots (h : Refines db m) (address : Bytes32) :
    db.entries.slots (contractStoragePrefix address.toList) = m.slots address := by
  apply Std.ExtTreeMap.ext_getElem?
  intro key
  rw [getElem?_slots]
  exact h.records (.slot address key)

/-- A record that is read is the one of the maps. -/
theorem getRecord_eq {α : Type} [Codec α] {key : Bytes} {record : Option (Fitting α)}
    (h : db.entries[key]? = record.map fun a => serialize a.val) :
    db.getRecord key = .ok (record.map Subtype.val) := by
  cases record with
  | none => exact getRecord_eq_none.mpr h
  | some a => exact getRecord_serialize a.property h

theorem Refines.requireContract (h : Refines db m) (address : Bytes) :
    Prims.requireContract db address =
      ((m.contracts address).map Subtype.val).okOr .contractDoesNotExist := by
  have hget : getContract db address = .ok ((m.contracts address).map Subtype.val) :=
    getRecord_eq (h.records (.contract address))
  rw [Prims.requireContract, hget]
  cases m.contracts address <;> rfl

/-- **Writing slots** in the store is writing them in the maps. -/
theorem Refines.committed (h : Refines db m) {address : Bytes32} {contract : Fitting Contract}
    (hcontract : m.contracts address.toList = some contract) (writes : List (Bytes × Bytes)) :
    Refines ⟨Prims.committed P db.entries address.toList contract.val writes, none⟩
      (m.writeSlots P address writes) := by
  refine ⟨rfl, fun key => ?_⟩
  rw [TypedMaps.writeSlots, hcontract]
  show (Prims.committed P _ _ _ _)[_]? = _
  by_cases hrecord : key = .contract address.toList
  · subst hrecord
    refine (getElem?_committed_contract db.entries address.toList contract.val writes).trans ?_
    rw [Prims.committed, slots_insert_contractKey, slots_withSlots, h.slots]
    simp [TypedMaps.record, withRoot]
  · by_cases hslot : ∃ k, key = .slot address k
    · obtain ⟨k, rfl⟩ := hslot
      refine (getElem?_committed_slot db.entries address.toList contract.val writes k).trans ?_
      have hold : db.entries[contractStorageKey address.toList k]? = (m.slots address)[k]? :=
        h.records (.slot address k)
      rw [hold]
      simp [TypedMaps.record, getElem?_writeAll]
    · have hother := getElem?_committed_other (P := P) db.entries address.toList contract.val writes
        (LogicalKey.physical_injective.ne hrecord) fun k =>
          LogicalKey.physical_injective.ne (not_exists.mp hslot k)
      rw [hother, h.records]
      cases key with
      | contract address' =>
        have hne : address' ≠ address.toList := fun heq => hrecord (congrArg _ heq)
        simp [TypedMaps.record, Function.update_of_ne hne]
      | slot address' k =>
        have hne : address' ≠ address := fun heq => hslot ⟨k, by rw [heq]⟩
        simp [TypedMaps.record, Function.update_of_ne hne]
      | _ => rfl

theorem Refines.saveBlock (h : Refines db m) (block : Fitting Block) :
    Refines (((TypedWrite.saveBlock block.val).run P).run db).2
      (m.step P ⟨.saveBlock block.val, block.property⟩) := by
  have hblock : Refines ⟨db.entries.insert (LogicalKey.block block.val.header.height).physical
      (serialize block.val), none⟩
        { m with blocks := Function.update m.blocks block.val.header.height (some block) } := by
    refine h.insert (.block _) fun key => ?_
    cases key <;> simp [TypedMaps.record, map_update]
  rw [TypedWrite.run, Procedure.bind_run_ok (saveBlock_run h.writesLeft block.val)]
  refine hblock.insert (.heightIndex _) fun key => ?_
  cases key <;> simp [TypedMaps.record, TypedMaps.step, map_update]

theorem Refines.saveTransaction (h : Refines db m) (transaction : Fitting Transaction) :
    Refines (((TypedWrite.saveTransaction transaction.val).run P).run db).2
      (m.step P ⟨.saveTransaction transaction.val, transaction.property⟩) := by
  have hput : Prims.saveTransaction P transaction.val = Prims.put (LogicalKey.transaction
      (hashTransaction P transaction.val).toList).physical (serialize transaction.val) >>= fun _ =>
        pure (hashTransaction P transaction.val).toList := rfl
  rw [TypedWrite.run, hput, bind_assoc, Prims.put,
    Procedure.bind_run_ok (Db.write_run h.writesLeft)]
  refine h.insert (.transaction _) fun key => ?_
  cases key <;> simp [TypedMaps.record, TypedMaps.step, map_update]

theorem Refines.saveViewableNote (h : Refines db m) (note : ViewableNote) :
    Refines ((Prims.saveViewableNote note).run db).2
      (m.step P ⟨.saveViewableNote note, trivial⟩) := by
  have hnote : Refines ⟨db.entries.insert (LogicalKey.note note.commitment.toList).physical
      (serialize note), none⟩
        { m with notes := Function.update m.notes note.commitment.toList (some note) } := by
    refine h.insert (.note _) fun key => ?_
    cases key <;> simp [TypedMaps.record, map_update]
  rw [Prims.saveViewableNote, Prims.put, Procedure.bind_run_ok (Db.write_run h.writesLeft)]
  refine hnote.put (.viewingHint note.viewingHint note.commitment.toList) fun key => ?_
  cases key <;> simp [TypedMaps.record, TypedMaps.step, map_update]

theorem Refines.addressTaken (h : Refines db m) (address : Bytes) :
    Prims.addressTaken db address =
      .ok ((m.accounts address).isSome || (m.contracts address).isSome) := by
  have haccount : getAccount db address = .ok ((m.accounts address).map Subtype.val) :=
    getRecord_eq (h.records (.account address))
  have hcontract : getContract db address = .ok ((m.contracts address).map Subtype.val) :=
    getRecord_eq (h.records (.contract address))
  rw [Prims.addressTaken, haccount, hcontract]
  cases m.accounts address <;> cases m.contracts address <;> rfl

/-- **Deployments**: a contract and its account are in the store when the address is free. -/
theorem Refines.deployContract (h : Refines db m) (sender : Bytes) {codeWasm : Bytes}
    (hcode : codeWasm.length < 2 ^ 64) :
    Refines (((TypedWrite.deployContract sender codeWasm).run P).run db).2
      (m.deploy P sender codeWasm hcode) := by
  have hsnd : (((TypedWrite.deployContract sender codeWasm).run P).run db).2 =
      ((Prims.deployContract P sender codeWasm).run db).2 := by
    rw [TypedWrite.run, Procedure.bind_run]
    rcases (Prims.deployContract P sender codeWasm).run db with ⟨_ | _, _⟩ <;> rfl
  rw [hsnd, deployContract_run_snd h.writesLeft sender codeWasm (h.addressTaken _),
    TypedMaps.deploy]
  simp only [Bool.or_eq_false_iff, Option.isSome_eq_false_iff]
  split
  · have hcontract : Refines ⟨db.entries.insert (LogicalKey.contract
        (deriveContractAddress P sender codeWasm).toList).physical
          (serialize (⟨codeWasm, (P.sha256 []).toList⟩ : Contract)), none⟩
        { m with
          contracts := Function.update m.contracts (deriveContractAddress P sender codeWasm).toList
            (some ⟨⟨codeWasm, (P.sha256 []).toList⟩, fits_contract hcode (P.sha256 [])⟩) } := by
      refine h.insert (.contract _) fun key => ?_
      cases key <;> simp [TypedMaps.record, map_update]
    refine hcontract.insert (.account _) fun key => ?_
    cases key <;> simp [TypedMaps.record, map_update]
  · exact h

/-- An operation that writes slots when there is the contract, and changes nothing otherwise. -/
theorem Refines.writeSlots (h : Refines db m) (address : Bytes32) (writes : List (Bytes × Bytes))
    {op : StorageM Unit}
    (hmissing : ∀ e, Prims.requireContract db address.toList = .error e → (op.run db).2 = db)
    (hfound : ∀ contract, Prims.requireContract db address.toList = .ok contract →
      (op.run db).2 = ⟨Prims.committed P db.entries address.toList contract writes, none⟩) :
    Refines (op.run db).2 (m.writeSlots P address writes) := by
  have hrequire := h.requireContract address.toList
  cases hcontract : m.contracts address.toList with
  | none =>
    rw [hcontract] at hrequire
    rw [hmissing _ hrequire, TypedMaps.writeSlots, hcontract]
    exact h
  | some contract =>
    rw [hcontract] at hrequire
    rw [hfound _ hrequire]
    exact h.committed hcontract writes

/-- **Direct writes**: the slot and the new root are in the store, if there is the contract. -/
theorem Refines.setContractStorage (h : Refines db m) (address : Bytes32) (key value : Bytes) :
    Refines ((Prims.setContractStorage P address.toList key value).run db).2
      (m.writeSlots P address [(key, value)]) := by
  refine h.writeSlots address _ (fun e he => setContractStorage_run_missing he key value) ?_
  intro contract hcontract
  rw [setContractStorage_run hcontract h.writesLeft]

/-- **Batches**: the same for a batch that has a write. -/
theorem Refines.commitContractStorageBatch (h : Refines db m) (address : Bytes32)
    (writes : ByteMap) :
    Refines ((Prims.commitContractStorageBatch P address.toList writes).run db).2
      (m.step P ⟨.commitContractStorageBatch address.toList writes, address.property⟩) := by
  show Refines _ (if writes.isEmpty then m else m.writeSlots P address writes.toList)
  split_ifs with hempty
  · rw [Prims.commitContractStorageBatch, if_pos hempty]
    exact h
  · have hne : writes ≠ ∅ := fun heq => hempty (Std.ExtTreeMap.isEmpty_iff.mpr heq)
    refine h.writeSlots address _
      (fun e he => commitContractStorageBatch_run_missing he writes) ?_
    intro contract hcontract
    rw [commitContractStorageBatch_run hcontract hne, Db.write_run h.writesLeft]

/-- **A call on the store is the call on the maps.** -/
theorem refines_step (h : Refines db m) (call : StoreCall) :
    Refines ((call.val.run P).run db).2 (m.step P call) := by
  obtain ⟨write, hfits⟩ := call
  cases write with
  | saveBlock block => exact h.saveBlock ⟨block, hfits⟩
  | saveTransaction transaction => exact h.saveTransaction ⟨transaction, hfits⟩
  | updateAccount address account =>
    refine h.put (.account address) fun key => ?_
    cases key <;> simp [TypedMaps.record, TypedMaps.step, map_update]
  | deployContract sender codeWasm => exact h.deployContract sender hfits
  | updateContract address contract =>
    refine h.put (.contract address) fun key => ?_
    cases key <;> simp [TypedMaps.record, TypedMaps.step, map_update]
  | setContractStorage address key value => exact h.setContractStorage ⟨address, hfits⟩ key value
  | commitContractStorageBatch address writes =>
    exact h.commitContractStorageBatch ⟨address, hfits⟩ writes
  | saveViewableNote note => exact h.saveViewableNote note
  | saveNoteMerkleRoot shardId root =>
    refine h.put (.noteMerkleRoot shardId) fun key => ?_
    cases key <;> simp [TypedMaps.record, TypedMaps.step, map_update]
  | saveValidator validator =>
    refine h.put (.stake validator.address) fun key => ?_
    cases key <;> simp [TypedMaps.record, TypedMaps.step, map_update]

/-! ## Runs -/

variable (P) in
/-- The store after a run from an empty one. -/
def storeRun (calls : List StoreCall) : Db :=
  calls.foldl (fun db call => ((call.val.run P).run db).2) {}

variable (P) in
/-- The maps after the same run. -/
def mapsRun (calls : List StoreCall) : TypedMaps := calls.foldl (TypedMaps.step P) {}

theorem refines_run (calls : List StoreCall) : Refines (storeRun P calls) (mapsRun P calls) := by
  induction calls using List.reverseRecOn with
  | nil =>
    refine ⟨rfl, fun key => ?_⟩
    refine Std.ExtTreeMap.getElem?_empty.trans ?_
    cases key <;> rfl
  | append_singleton calls call ih =>
    rw [storeRun, mapsRun, List.foldl_concat, List.foldl_concat]
    exact refines_step ih call

/-- Every getter of the store returns what the map of its kind holds. -/
structure Serves (db : Db) (m : TypedMaps) : Prop where
  block : ∀ height, getBlock db height = .ok ((m.blocks height).map Subtype.val)
  transaction : ∀ hash, getTransaction db hash = .ok ((m.transactions hash).map Subtype.val)
  account : ∀ address, getAccount db address = .ok ((m.accounts address).map Subtype.val)
  validator : ∀ address, getValidator db address = .ok ((m.validators address).map Subtype.val)
  contract : ∀ address, getContract db address = .ok ((m.contracts address).map Subtype.val)
  slot : ∀ address : Bytes32, (m.contracts address.toList).isSome →
    ∀ key, getContractStorage db address.toList key = .ok (m.slots address)[key]?
  note : ∀ commitment, getViewableNote db commitment = .ok (m.notes commitment)
  noteMerkleRoot : ∀ shardId, getNoteMerkleRoot db shardId = .ok (m.noteMerkleRoots shardId)

/-- Records of fixed length always fit. -/
theorem getRecord_of_forall_fits {α : Type} [Codec α] (hfits : ∀ a : α, Codec.Fits a) {key : Bytes}
    {record : Option α} (h : db.entries[key]? = record.map serialize) :
    db.getRecord key = .ok record := by
  cases record with
  | none => exact getRecord_eq_none.mpr h
  | some a => exact getRecord_serialize (hfits a) h

theorem Refines.serves (h : Refines db m) : Serves db m where
  block height := getRecord_eq (h.records (.block height))
  transaction hash := getRecord_eq (h.records (.transaction hash))
  account address := getRecord_eq (h.records (.account address))
  validator address := getRecord_eq (h.records (.stake address))
  contract address := getRecord_eq (h.records (.contract address))
  slot address hcontract key := by
    obtain ⟨contract, hcontract⟩ := Option.isSome_iff_exists.mp hcontract
    have hslot : db.entries[contractStorageKey address.toList key]? = (m.slots address)[key]? :=
      h.records (.slot address key)
    rw [getContractStorage, h.requireContract, hcontract, hslot]
    rfl
  note commitment := by
    have hfits : ∀ note : ViewableNote, Codec.Fits note := fun _ => ⟨trivial, trivial, trivial⟩
    exact getRecord_of_forall_fits hfits (h.records (.note commitment))
  noteMerkleRoot shardId := by
    have hfits : ∀ root : Bytes32, Codec.Fits root := fun _ => trivial
    exact getRecord_of_forall_fits hfits (h.records (.noteMerkleRoot shardId))

end Calls

/-- **The store refines independent typed maps.** After any run of its writers from an empty store,
every getter returns what was last written in the map of its kind, and no two logical keys of the
schema share a physical key. -/
theorem store_refines_typed_maps (P : Primitives) (calls : List StoreCall) :
    Serves (storeRun P calls) (mapsRun P calls) ∧ Function.Injective LogicalKey.physical :=
  ⟨(refines_run calls).serves, LogicalKey.physical_injective⟩

end Prims
