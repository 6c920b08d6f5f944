import Prims.Storage.Backend

/-!
# The storage root of a contract

A contract is written slot by slot or in a batch, and both ways leave the same store: the batch
merges the new slots into the old ones before it computes the root, and the single writes compute it
anew from the store after every one of them.

The root hashes the digests of the slots one after the other, in the order of the slots. The digests
have one length, so the slots are read off the message that is hashed, and the root binds the
contract to its slots unless there is a collision.

## Main definitions

* `SlotWrite`, `WrittenBy`: a store whose slots are those of a list of writes
* `slotMap`: what the writes leave in the slots of an address
* `rootMessages`: what the root hashes

## Main results

* `batch_agrees_with_single_writes`: a batch and its writes, one by one and in any order
* `storageRootOf_injective`: the root determines the slots
* `WrittenBy.committed`: a commit of slots adds its writes to those that the store comes from
* `storage_root_binds`: the root in terms of the writes
-/

namespace Prims

open Bincode ByteMap

section Batches

variable {P : Primitives}

/-! ## Batches and single writes -/

/-- Some slots are written one after the other. -/
def setContractStorageAll (P : Primitives) (address : Bytes) (writes : List (Bytes × Bytes)) :
    StorageM Unit :=
  writes.forM fun e => setContractStorage P address e.1 e.2

/-- **Single writes** leave what one commit of all of them leaves. -/
theorem setContractStorageAll_run {db : Db} {address : Bytes} {contract : Contract}
    (h : requireContract db address = .ok contract) (hwrites : db.writesLeft = none)
    (e : Bytes × Bytes) (writes : List (Bytes × Bytes)) :
    (setContractStorageAll P address (e :: writes)).run db =
      (.ok (), ⟨committed P db.entries address contract (e :: writes), none⟩) := by
  induction writes generalizing db contract e with
  | nil =>
    show (setContractStorage P address e.1 e.2 >>= fun _ => pure ()).run db = _
    rw [Procedure.bind_run_ok (setContractStorage_run h hwrites e.1 e.2)]
    rfl
  | cons e' writes ih =>
    show (setContractStorage P address e.1 e.2 >>= fun _ =>
      setContractStorageAll P address (e' :: writes)).run db = _
    rw [Procedure.bind_run_ok (setContractStorage_run h hwrites e.1 e.2)]
    rw [ih (requireContract_committed h rfl) rfl e']
    dsimp only
    rw [committed_committed]
    rfl

/-- **A batch agrees with its writes**: where there is a contract and the backend accepts all
writes, a batch succeeds, and its writes succeed one by one, in any order, and leave the same
store. -/
theorem batch_agrees_with_single_writes (P : Primitives) (entries : ByteMap) (address : Bytes)
    (contract : Contract) (h : requireContract { entries } address = .ok contract)
    (writes : ByteMap) :
    ∃ after, (commitContractStorageBatch P address writes).run { entries } = (.ok (), after) ∧
      ∀ order : List (Bytes × Bytes), order.Perm writes.toList →
        (setContractStorageAll P address order).run { entries } = (.ok (), after) := by
  by_cases hempty : writes = ∅
  · subst hempty
    refine ⟨{ entries }, rfl, fun order hperm => ?_⟩
    have hnil : order = [] := List.perm_nil.mp hperm
    rw [hnil]
    rfl
  · refine ⟨⟨committed P entries address contract writes.toList, none⟩, ?_, fun order hperm => ?_⟩
    · rw [commitContractStorageBatch_run h hempty, Db.write_run rfl]
    · cases order with
      | nil => exact absurd (Std.ExtTreeMap.toList_eq_nil_iff.mp (List.nil_perm.mp hperm)) hempty
      | cons e order =>
        rw [setContractStorageAll_run h rfl,
          committed_congr _ _ _ (lastWrite_eq_of_perm hperm (pairwise_ne_toList writes))]

end Batches

/-- A store with one contract, at the address 1. -/
def oneContractDb : Db where
  entries := (∅ : ByteMap).insert (contractKey [1]) (serialize (⟨[0], []⟩ : Contract))

theorem requireContract_oneContractDb :
    requireContract oneContractDb [1] = .ok ⟨[0], []⟩ := by
  apply requireContract_of_entry (Codec.fits_of_length (by decide))
  rw [oneContractDb, getElem?_insert_eq, if_pos rfl]

/-- A batch of two slots, which are written one by one in both orders. -/
theorem oneContractDb_twoSlots :
    requireContract oneContractDb [1] = .ok ⟨[0], []⟩ ∧
      ∃ after, (commitContractStorageBatch (.recorded []) [1]
          (writeAll ∅ [([2], [3]), ([4], [5])])).run oneContractDb = (.ok (), after) ∧
        ∀ order ∈ [[([2], [3]), ([4], [5])], [([4], [5]), ([2], [3])]],
          (setContractStorageAll (.recorded []) [1] order).run oneContractDb = (.ok (), after) := by
  obtain ⟨after, hbatch, hsingle⟩ := batch_agrees_with_single_writes (.recorded [])
    oneContractDb.entries [1] ⟨[0], []⟩ requireContract_oneContractDb
    (writeAll ∅ [([2], [3]), ([4], [5])])
  refine ⟨requireContract_oneContractDb, after, hbatch, fun order horder => hsingle order ?_⟩
  have hslots : (writeAll ∅ [([2], [3]), ([4], [5])]).toList = [([2], [3]), ([4], [5])] := rfl
  rw [hslots]
  rcases List.mem_pair.mp horder with rfl | rfl
  · exact List.Perm.refl _
  · exact List.Perm.swap _ _ _

/-! ## Binding -/

section Binding

variable (P : Primitives)

/-- What the root of some slots hashes: the keys, the values, and the digests of both. -/
def rootMessages (slots : List (Bytes × Bytes)) : List Bytes :=
  slotsPayload P slots :: slots.flatMap fun e => [e.1, e.2]

variable {P}

theorem slotsPayload_cons (e : Bytes × Bytes) (slots : List (Bytes × Bytes)) :
    slotsPayload P (e :: slots) =
      (P.sha256 e.1).toList ++ (P.sha256 e.2).toList ++ slotsPayload P slots :=
  List.flatMap_cons

theorem slotsPayload_cons_ne_nil (e : Bytes × Bytes) (slots : List (Bytes × Bytes)) :
    slotsPayload P (e :: slots) ≠ [] := by
  intro hnil
  have hlength := congrArg List.length hnil
  rw [slotsPayload_cons, List.length_append, List.length_append, List.Vector.toList_length,
    List.length_nil] at hlength
  omega

/-- **The slots are read off the digests**, which have one length. -/
theorem slotsPayload_injective {messages : List Bytes} (hcol : ¬ Collision P.sha256 messages)
    {slots slots' : List (Bytes × Bytes)} (h : ∀ e ∈ slots, e.1 ∈ messages ∧ e.2 ∈ messages)
    (h' : ∀ e ∈ slots', e.1 ∈ messages ∧ e.2 ∈ messages)
    (heq : slotsPayload P slots = slotsPayload P slots') : slots = slots' := by
  induction slots generalizing slots' with
  | nil =>
    cases slots' with
    | nil => rfl
    | cons e' slots' => exact absurd heq.symm (slotsPayload_cons_ne_nil e' slots')
  | cons e slots ih =>
    cases slots' with
    | nil => exact absurd heq (slotsPayload_cons_ne_nil e slots)
    | cons e' slots' =>
      rw [List.forall_mem_cons] at h h'
      rw [slotsPayload_cons, slotsPayload_cons, List.append_assoc, List.append_assoc] at heq
      obtain ⟨hkey, heq⟩ := List.append_inj heq (by rw [List.Vector.toList_length,
        List.Vector.toList_length])
      obtain ⟨hvalue, hrest⟩ := List.append_inj heq (by rw [List.Vector.toList_length,
        List.Vector.toList_length])
      rw [ih h.2 h'.2 hrest, Prod.ext (eq_of_hash_eq hcol h.1.1 h'.1.1 (Subtype.ext hkey))
        (eq_of_hash_eq hcol h.1.2 h'.1.2 (Subtype.ext hvalue))]

/-- **The root determines the slots**, unless there is a collision. -/
theorem storageRootOf_injective {slots slots' : ByteMap}
    (hcol : ¬ Collision P.sha256 (rootMessages P slots.toList ++ rootMessages P slots'.toList))
    (heq : storageRootOf P slots = storageRootOf P slots') : slots = slots' := by
  have hmem : ∀ slots : List (Bytes × Bytes), ∀ e ∈ slots,
      e.1 ∈ rootMessages P slots ∧ e.2 ∈ rootMessages P slots := by
    intro slots e he
    constructor
    · exact List.mem_cons_of_mem _ (List.mem_flatMap.mpr ⟨e, he, by simp⟩)
    · exact List.mem_cons_of_mem _ (List.mem_flatMap.mpr ⟨e, he, by simp⟩)
  have hpayload : slotsPayload P slots.toList = slotsPayload P slots'.toList :=
    eq_of_hash_eq hcol (List.mem_append_left _ List.mem_cons_self)
      (List.mem_append_right _ List.mem_cons_self) heq
  have hlist : slots.toList = slots'.toList := by
    refine slotsPayload_injective hcol (fun e he => ?_) (fun e he => ?_) hpayload
    · exact ⟨List.mem_append_left _ (hmem _ e he).1, List.mem_append_left _ (hmem _ e he).2⟩
    · exact ⟨List.mem_append_right _ (hmem _ e he).1, List.mem_append_right _ (hmem _ e he).2⟩
  apply Std.ExtTreeMap.ext_getElem?
  intro k
  rw [← lastWrite_toList, ← lastWrite_toList, hlist]

/-! ## Stores and the writes they come from -/

/-- A write to a slot of a contract whose address has 32 bytes. -/
structure SlotWrite where
  address : Bytes32
  key : Bytes
  value : Bytes
  deriving DecidableEq

/-- The entry of the store that a write leaves. -/
def SlotWrite.entry (write : SlotWrite) : Bytes × Bytes :=
  (contractStorageKey write.address.toList write.key, write.value)

/-- The entries of contract storage in a store are the ones that some writes under addresses of 32
bytes left. The other entries of the store may be any. -/
def WrittenBy (writes : List SlotWrite) (db : Db) : Prop :=
  ∀ suffix, db.entries[prefixedKey "m:" suffix]? =
    lastWrite (writes.map SlotWrite.entry) (prefixedKey "m:" suffix)

/-- **A commit writes slots**: single writes and batches leave `committed`, and what they write is
added to the writes. -/
theorem WrittenBy.committed {writes : List SlotWrite} {db db' : Db} (h : WrittenBy writes db)
    (address : Bytes32) (contract : Contract) (slots : List (Bytes × Bytes))
    (hentries : db'.entries = committed P db.entries address.toList contract slots) :
    WrittenBy (writes ++ slots.map fun e => ⟨address, e.1, e.2⟩) db' := by
  intro suffix
  have hne : contractKey address.toList ≠ prefixedKey "m:" suffix := by
    intro hkey
    have hhead := congrArg List.head? hkey
    rw [contractKey, head?_prefixedKey _ _ (by decide), head?_prefixedKey _ _ (by decide)] at hhead
    exact absurd hhead (by decide)
  rw [hentries, Prims.committed, getElem?_insert_eq, if_neg hne, withSlots, getElem?_writeAll,
    h suffix, List.map_append, List.map_map, lastWrite_append]
  rfl

/-- **The slots of an address**: the last value that was written under each key of it. -/
def slotMap (writes : List SlotWrite) (address : Bytes32) (key : Bytes) : Option Bytes :=
  lastWrite ((writes.filter fun write => write.address = address).map fun write =>
    (write.key, write.value)) key

/-- A key of contract storage has one address of 32 bytes and one slot. -/
theorem contractStorageKey_eq_iff {a b : Bytes32} {k k' : Bytes} :
    contractStorageKey a.toList k = contractStorageKey b.toList k' ↔ a = b ∧ k = k' := by
  refine ⟨fun h => ?_, fun ⟨ha, hk⟩ => by rw [ha, hk]⟩
  have hlength : b.toList.length = a.toList.length := by
    rw [List.Vector.toList_length, List.Vector.toList_length]
  have haddress : b.toList = a.toList := by
    by_contra hne
    exact contractStorageKey_ne_of_not_overlap hne (not_overlap_of_length_eq hlength) k k' h
  rw [haddress] at h
  exact ⟨Subtype.ext haddress.symm, contractStorageKey_injective _ h⟩

/-- What the writes leave under a key is what they leave in the slot. -/
theorem lastWrite_entry (writes : List SlotWrite) (address : Bytes32) (key : Bytes) :
    lastWrite (writes.map SlotWrite.entry) (contractStorageKey address.toList key) =
      slotMap writes address key := by
  have hkey : ∀ write : SlotWrite, write.entry.1 = contractStorageKey address.toList key ↔
      write.address = address ∧ write.key = key := fun _ => contractStorageKey_eq_iff
  unfold slotMap lastWrite
  rw [← List.map_reverse, ← List.map_reverse, ← List.filter_reverse, List.find?_map, List.find?_map,
    List.find?_filter, Option.map_map, Option.map_map]
  simp only [Function.comp_def, hkey, decide_eq_true_eq]
  rfl

/-- The order of the writes does not matter where no slot is written twice. -/
theorem slotMap_eq_of_perm {writes writes' : List SlotWrite} (hperm : writes.Perm writes')
    (hdistinct : (writes.map fun write => (write.address, write.key)).Nodup) (address : Bytes32) :
    slotMap writes address = slotMap writes' address := by
  funext key
  refine (lastWrite_eq_of_perm ((hperm.symm.filter _).map _) ?_ key).symm
  rw [List.pairwise_map, List.pairwise_filter]
  rw [List.nodup_iff_pairwise_ne, List.pairwise_map] at hdistinct
  refine hdistinct.imp fun {a b} hne ha hb hkey => hne ?_
  have hkey : a.key = b.key := hkey
  rw [of_decide_eq_true ha, of_decide_eq_true hb, hkey]

/-- **The scan under a contract** returns its slots, whatever else is in the store. -/
theorem WrittenBy.slots_getElem? {writes : List SlotWrite} {db : Db} (h : WrittenBy writes db)
    (address : Bytes32) (key : Bytes) :
    (db.entries.slots (contractStoragePrefix address.toList))[key]? =
      slotMap writes address key := by
  have hentry := h (address.toList ++ utf8 ":" ++ key)
  have hkey : prefixedKey "m:" (address.toList ++ utf8 ":" ++ key) =
      contractStorageKey address.toList key := (List.append_assoc _ _ _).symm
  rw [getElem?_slots, ← lastWrite_entry]
  rw [hkey] at hentry
  exact hentry

end Binding

/-- **The root of a contract binds it to its slots.** In two stores whose slots were all written
under addresses of 32 bytes, a contract has the same root when it has the same slots, so the order
of the writes does not matter where no slot is written twice. It has the same slots when it has the
same root, unless there is a collision. -/
theorem storage_root_binds (P : Primitives) (db db' : Db) (writes writes' : List SlotWrite)
    (h : WrittenBy writes db) (h' : WrittenBy writes' db') (address : Bytes32) :
    (slotMap writes address = slotMap writes' address →
      computeContractStorageRoot P db address.toList =
        computeContractStorageRoot P db' address.toList) ∧
    (computeContractStorageRoot P db address.toList =
        computeContractStorageRoot P db' address.toList →
      slotMap writes address = slotMap writes' address ∨
        Collision P.sha256
          (rootMessages P (db.entries.slots (contractStoragePrefix address.toList)).toList ++
            rootMessages P (db'.entries.slots (contractStoragePrefix address.toList)).toList)) ∧
    (writes.Perm writes' → (writes.map fun write => (write.address, write.key)).Nodup →
      computeContractStorageRoot P db address.toList =
        computeContractStorageRoot P db' address.toList) := by
  have hsame : slotMap writes address = slotMap writes' address →
      computeContractStorageRoot P db address.toList =
        computeContractStorageRoot P db' address.toList := by
    intro hslots
    have hmap : db.entries.slots (contractStoragePrefix address.toList) =
        db'.entries.slots (contractStoragePrefix address.toList) := by
      apply Std.ExtTreeMap.ext_getElem?
      intro key
      rw [h.slots_getElem?, h'.slots_getElem?, hslots]
    rw [computeContractStorageRoot_eq, computeContractStorageRoot_eq, hmap]
  refine ⟨hsame, fun hroot => ?_,
    fun hperm hdistinct => hsame (slotMap_eq_of_perm hperm hdistinct address)⟩
  rw [computeContractStorageRoot_eq, computeContractStorageRoot_eq] at hroot
  refine or_iff_not_imp_right.mpr fun hcol => funext fun key => ?_
  rw [← h.slots_getElem?, ← h'.slots_getElem?, storageRootOf_injective hcol hroot]

/-- A store with some slots and nothing else. -/
def slotsDb (writes : List SlotWrite) : Db where
  entries := writeAll ∅ (writes.map SlotWrite.entry)

theorem writtenBy_slotsDb (writes : List SlotWrite) : WrittenBy writes (slotsDb writes) := by
  intro suffix
  rw [slotsDb, getElem?_writeAll, Std.ExtTreeMap.getElem?_empty, Option.or_none]

/-- Two slots of the zero address. -/
def twoSlots : List SlotWrite :=
  [⟨List.Vector.replicate 32 0, [1], [10]⟩, ⟨List.Vector.replicate 32 0, [2], [20]⟩]

/-- The two slots have one root in either order. -/
theorem twoSlots_root :
    WrittenBy twoSlots (slotsDb twoSlots) ∧ WrittenBy twoSlots.reverse (slotsDb twoSlots.reverse) ∧
      computeContractStorageRoot (.recorded []) (slotsDb twoSlots) (List.replicate 32 0) =
        computeContractStorageRoot (.recorded []) (slotsDb twoSlots.reverse)
          (List.replicate 32 0) := by
  have hperm : twoSlots.Perm twoSlots.reverse := (List.reverse_perm _).symm
  exact ⟨writtenBy_slotsDb _, writtenBy_slotsDb _,
    (storage_root_binds (.recorded []) _ _ _ _ (writtenBy_slotsDb twoSlots)
      (writtenBy_slotsDb twoSlots.reverse) (List.Vector.replicate 32 0)).2.2 hperm (by decide)⟩

end Prims
