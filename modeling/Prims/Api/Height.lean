import Prims.Lib.Text
import Prims.Storage.Schema

/-!
# The height of the chain

`latest_block_height` of the API scans the keys of the blocks and returns the largest height that it
reads from them. Heights are written in decimal and without padding, so the order of the keys is not
the order of the heights, and the scan goes through all of them.

The result is the largest height that was ever saved, whatever else is written to the store: the
other writers never touch a key that starts like the key of a block.

## Main definitions

* `parseBlockHeightKey`, `latestBlockHeight`
* `writeRun`: the store after a run of its writers
* `savedHeights`: the heights of the blocks that a run saves

## Main results

* `parseBlockHeightKey_blockKey`: a height is read back from its key
* `hasHeights_writeRun`: the block keys after a run are those of the saved heights
* `latest_height_is_maximum`: the height that is reported
-/

namespace Prims

open Bincode ByteMap

/-! ## The report -/

def parseBlockHeightKey (key : Bytes) : Option UInt64 := do
  let text ← fromUtf8 key
  let rawHeight ← List.isPrefixOf? "b:".toList text.toList
  Text.parseUInt64 rawHeight

/-- One round of the loop over the keys. -/
def latestStep (latest : Option UInt64) (entry : Bytes × Bytes) : Option UInt64 :=
  match parseBlockHeightKey entry.1 with
  | some height =>
    match latest with
    | some current => some (max current height)
    | none => some height
  | none => latest

def latestBlockHeight (storage : Db) : Option UInt64 :=
  (storage.entries.scan (utf8 "b:")).foldl latestStep none

/-- **A height is read back from its key.** -/
theorem parseBlockHeightKey_blockKey (height : UInt64) :
    parseBlockHeightKey (blockKey height) = some height := by
  have hkey : blockKey height = utf8 ("b:" ++ toString height.toNat) := (utf8_append _ _).symm
  have hstrip : List.isPrefixOf? "b:".toList ("b:" ++ toString height.toNat).toList =
      some (Nat.toDigits 10 height.toNat) := by
    have hdigits : (toString height.toNat).toList = Nat.toDigits 10 height.toNat := by
      rw [Nat.toString_eq_ofList_toDigits, String.toList_ofList]
    rw [List.isPrefixOf?_eq_some_iff_append_eq, String.toList_append, hdigits]
  rw [parseBlockHeightKey, hkey, fromUtf8_utf8]
  show (List.isPrefixOf? _ _).bind Text.parseUInt64 = _
  rw [hstrip]
  exact Text.parseUInt64_toDigits height

/-! ## The largest of some heights -/

/-- The largest of some heights, or nothing when there is none. -/
structure IsLatest (heights : List UInt64) (latest : Option UInt64) : Prop where
  none_iff : latest = none ↔ heights = []
  largest : ∀ height, latest = some height → height ∈ heights ∧ ∀ h ∈ heights, h ≤ height

theorem isLatest_singleton (height : UInt64) : IsLatest [height] (some height) := by
  refine ⟨by simp, fun new hnew => ?_⟩
  obtain rfl := Option.some.inj hnew
  exact ⟨List.mem_singleton_self _, fun h hh => List.mem_singleton.mp hh ▸ UInt64.le_refl _⟩

theorem le_max_iff {a b c : UInt64} : c ≤ max a b ↔ c ≤ a ∨ c ≤ b := by
  have hmax : max a b = if a ≤ b then b else a := rfl
  rw [hmax]
  split_ifs with h
  · exact ⟨.inr, fun hc => hc.elim (fun hca => UInt64.le_trans hca h) id⟩
  · have hle : b ≤ a := UInt64.le_of_lt (UInt64.not_le.mp h)
    exact ⟨.inl, fun hc => hc.elim id fun hcb => UInt64.le_trans hcb hle⟩

theorem IsLatest.concat {heights : List UInt64} {current : UInt64}
    (h : IsLatest heights (some current)) (height : UInt64) :
    IsLatest (heights ++ [height]) (some (max current height)) := by
  obtain ⟨hmem, hle⟩ := h.largest current rfl
  refine ⟨by simp, fun new hnew => ?_⟩
  obtain rfl := Option.some.inj hnew
  constructor
  · have hmax : max current height = if current ≤ height then height else current := rfl
    rw [hmax]
    split_ifs
    · exact List.mem_append_right _ (List.mem_singleton_self _)
    · exact List.mem_append_left _ hmem
  · intro h hh
    rw [le_max_iff]
    rcases List.mem_append.mp hh with hh | hh
    · exact .inl (hle h hh)
    · exact .inr (List.mem_singleton.mp hh ▸ UInt64.le_refl _)

/-- Only which heights there are matters. -/
theorem IsLatest.congr {heights heights' : List UInt64} {latest : Option UInt64}
    (h : IsLatest heights latest) (hmem : ∀ height, height ∈ heights ↔ height ∈ heights') :
    IsLatest heights' latest := by
  refine ⟨?_, fun height hlatest => ?_⟩
  · rw [h.none_iff, List.eq_nil_iff_forall_not_mem, List.eq_nil_iff_forall_not_mem]
    simp only [hmem]
  · obtain ⟨hheight, hle⟩ := h.largest height hlatest
    exact ⟨(hmem height).mp hheight, fun h hh => hle h ((hmem h).mpr hh)⟩

/-- The heights that are read from some entries. -/
def readHeights (entries : List (Bytes × Bytes)) : List UInt64 :=
  entries.filterMap fun entry => parseBlockHeightKey entry.1

theorem readHeights_concat (entries : List (Bytes × Bytes)) (entry : Bytes × Bytes) :
    readHeights (entries ++ [entry]) =
      readHeights entries ++ (parseBlockHeightKey entry.1).toList := by
  rw [readHeights, List.filterMap_append]
  cases h : parseBlockHeightKey entry.1 <;> simp [readHeights, h]

/-- **The loop returns the largest height** that it reads. -/
theorem isLatest_foldl (entries : List (Bytes × Bytes)) :
    IsLatest (readHeights entries) (entries.foldl latestStep none) := by
  induction entries using List.reverseRecOn with
  | nil => exact ⟨iff_of_true rfl rfl, fun height h => nomatch h⟩
  | append_singleton entries entry ih =>
    rw [List.foldl_concat, readHeights_concat]
    generalize hlatest : entries.foldl latestStep none = latest at ih
    cases hparse : parseBlockHeightKey entry.1 with
    | none =>
      rw [latestStep, hparse, Option.toList_none, List.append_nil]
      exact ih
    | some height =>
      rw [latestStep, hparse, Option.toList_some]
      cases latest with
      | none =>
        rw [ih.none_iff.mp rfl]
        exact isLatest_singleton height
      | some current => exact ih.concat height

/-! ## Runs of the writers -/

section Writers

variable (P : Primitives)

/-- The store after some writes to an empty one. A call that fails is part of the run. -/
def writeRun (writes : List TypedWrite) : Db :=
  writes.foldl (fun db write => ((write.run P).run db).2) {}

variable {P}

/-- The height that a call saves a block at. -/
def TypedWrite.savedHeight : TypedWrite → Option UInt64
  | .saveBlock block => some block.header.height
  | _ => none

/-- The heights of the blocks that a run saves. -/
def savedHeights (writes : List TypedWrite) : List UInt64 :=
  writes.filterMap TypedWrite.savedHeight

/-! ## Sparing the blocks -/

/-- A key that does not start like the key of a block. -/
def NotBlock (key : Bytes) : Prop := key.head? ≠ some 98

instance (key : Bytes) : Decidable (NotBlock key) :=
  inferInstanceAs (Decidable (key.head? ≠ some 98))

theorem notBlock_prefixedKey {kind : String} (h : utf8 kind ≠ []) (hhead : NotBlock (utf8 kind))
    (suffix : Bytes) : NotBlock (prefixedKey kind suffix) := by
  rwa [NotBlock, head?_prefixedKey kind suffix h]

theorem notBlock_contractKey (address : Bytes) : NotBlock (contractKey address) :=
  notBlock_prefixedKey (by decide) (by decide) address

theorem notBlock_contractStorageKey (address key : Bytes) :
    NotBlock (contractStorageKey address key) := by
  rw [contractStorageKey_eq]
  exact notBlock_prefixedKey (by decide) (by decide) _

/-- **A procedure that spares the blocks**: it writes no key that starts like the key of a block. A
backend that accepts all writes goes on doing so. -/
structure SparesBlocks {α : Type} (m : StorageM α) : Prop where
  confined : Confined NotBlock m
  accepts : ∀ db, db.writesLeft = none → (m.run db).2.writesLeft = none

variable {α β : Type}

theorem sparesBlocks_pure (a : α) : SparesBlocks (pure a : StorageM α) :=
  ⟨confined_pure a, fun _ h => h⟩

theorem sparesBlocks_read (f : Db → Except StorageError α) : SparesBlocks (Procedure.read f) :=
  ⟨confined_read f, fun _ h => h⟩

theorem sparesBlocks_lift (x : Except StorageError α) : SparesBlocks (Procedure.lift x) :=
  sparesBlocks_read fun _ => x

theorem sparesBlocks_put {key : Bytes} (h : NotBlock key) (value : Bytes) :
    SparesBlocks (put key value) := by
  refine ⟨confined_put h value, fun db hdb => ?_⟩
  rw [put, Db.write_run hdb]

theorem sparesBlocks_writeBatch {writes : List (Bytes × Bytes)} (h : ∀ e ∈ writes, NotBlock e.1) :
    SparesBlocks (writeBatch writes) := by
  refine ⟨confined_writeBatch h, fun db hdb => ?_⟩
  rw [writeBatch, Db.write_run hdb]

theorem SparesBlocks.bind {m : StorageM α} (hm : SparesBlocks m) {f : α → StorageM β}
    (hf : ∀ a, SparesBlocks (f a)) : SparesBlocks (m >>= f) := by
  refine ⟨hm.confined.bind fun a => (hf a).confined, fun db hdb => ?_⟩
  have hfirst := hm.accepts db hdb
  rw [Procedure.bind_run]
  rcases hrun : m.run db with ⟨result, db'⟩
  rw [hrun] at hfirst
  cases result with
  | error e => exact hfirst
  | ok a => exact (hf a).accepts db' hfirst

theorem sparesBlocks_setContractStorage (address key value : Bytes) :
    SparesBlocks (setContractStorage P address key value) := by
  refine (sparesBlocks_read _).bind fun contract => ?_
  refine (sparesBlocks_put (notBlock_contractStorageKey address key) value).bind fun _ => ?_
  refine (sparesBlocks_read _).bind fun storageRoot => ?_
  exact sparesBlocks_put (notBlock_contractKey address) _

theorem sparesBlocks_commitContractStorageBatch (address : Bytes) (writes : ByteMap) :
    SparesBlocks (commitContractStorageBatch P address writes) := by
  unfold commitContractStorageBatch
  split
  · exact sparesBlocks_pure ()
  · refine (sparesBlocks_read _).bind fun contract => ?_
    refine (sparesBlocks_read _).bind fun slotEntries => ?_
    apply sparesBlocks_writeBatch
    intro e he
    rcases List.mem_append.mp he with he | he
    · obtain ⟨e', -, rfl⟩ := List.mem_map.mp he
      exact notBlock_contractStorageKey address e'.1
    · rw [List.mem_singleton.mp he]
      exact notBlock_contractKey address

theorem sparesBlocks_deployContract (sender codeWasm : Bytes) :
    SparesBlocks (deployContract P sender codeWasm) := by
  refine (sparesBlocks_lift _).bind fun _ => ?_
  refine (sparesBlocks_lift _).bind fun _ => ?_
  refine (sparesBlocks_read _).bind fun taken => ?_
  refine (sparesBlocks_lift _).bind fun _ => ?_
  refine (sparesBlocks_put (notBlock_contractKey _) _).bind fun _ => ?_
  refine (sparesBlocks_put (notBlock_prefixedKey (by decide) (by decide) _) _).bind fun _ => ?_
  exact sparesBlocks_pure _

theorem sparesBlocks_saveViewableNote (note : ViewableNote) :
    SparesBlocks (saveViewableNote note) := by
  refine (sparesBlocks_put (notBlock_prefixedKey (by decide) (by decide) _) _).bind fun _ => ?_
  rw [viewingHintNoteKey_eq]
  exact sparesBlocks_put (notBlock_prefixedKey (by decide) (by decide) _) _

theorem notBlock_noteMerkleRootKey (shardId : Option UInt16) :
    NotBlock (noteMerkleRootKey shardId) := by
  cases shardId <;> exact notBlock_prefixedKey (by decide) (by decide) _

/-- **The other writers spare the blocks.** -/
theorem TypedWrite.sparesBlocks {write : TypedWrite} (h : write.savedHeight = none) :
    SparesBlocks (write.run P) := by
  cases write with
  | saveBlock block => cases h
  | saveTransaction transaction =>
    have hput : SparesBlocks (Prims.saveTransaction P transaction) :=
      (sparesBlocks_put (notBlock_prefixedKey (by decide) (by decide) _) _).bind fun _ =>
        sparesBlocks_pure _
    exact hput.bind fun _ => sparesBlocks_pure ()
  | updateAccount address account =>
    exact sparesBlocks_put (notBlock_prefixedKey (by decide) (by decide) _) _
  | deployContract sender codeWasm =>
    exact (sparesBlocks_deployContract sender codeWasm).bind fun _ => sparesBlocks_pure ()
  | updateContract address contract => exact sparesBlocks_put (notBlock_contractKey address) _
  | setContractStorage address key value => exact sparesBlocks_setContractStorage address key value
  | commitContractStorageBatch address writes =>
    exact sparesBlocks_commitContractStorageBatch address writes
  | saveViewableNote note => exact sparesBlocks_saveViewableNote note
  | saveNoteMerkleRoot shardId root => exact sparesBlocks_put (notBlock_noteMerkleRootKey shardId) _
  | saveValidator validator =>
    exact sparesBlocks_put (notBlock_prefixedKey (by decide) (by decide) _) _

/-! ## Runs -/

/-- The block keys of a store are those of some heights, and the backend accepts all writes. -/
structure HasHeights (heights : List UInt64) (db : Db) : Prop where
  writesLeft : db.writesLeft = none
  keys : ∀ key, ¬ NotBlock key →
    (db.entries[key]?.isSome ↔ ∃ height ∈ heights, blockKey height = key)

variable {heights : List UInt64} {db : Db}

/-- Saving a block adds the key of its height. -/
theorem HasHeights.saveBlock (h : HasHeights heights db) (block : Block) :
    HasHeights (heights ++ [block.header.height]) ((Prims.saveBlock P block).run db).2 := by
  rw [saveBlock_run h.writesLeft]
  refine ⟨rfl, fun key hkey => ?_⟩
  have hindex : heightIndexKey (hashBlockHeader P block.header).toList ≠ key := by
    rintro rfl
    exact hkey (notBlock_prefixedKey (by decide) (by decide) _)
  rw [getElem?_insert_eq, if_neg hindex, getElem?_insert_eq]
  simp only [List.mem_append, List.mem_singleton, or_and_right, exists_or, exists_eq_left,
    ← h.keys key hkey]
  split_ifs with hblock <;> simp [hblock]

/-- **One write** adds the key of the height that it saves, if it saves one. -/
theorem HasHeights.step (h : HasHeights heights db) (write : TypedWrite) :
    HasHeights (heights ++ write.savedHeight.toList) ((write.run P).run db).2 := by
  cases hsaved : write.savedHeight with
  | none =>
    have hspares := TypedWrite.sparesBlocks (P := P) hsaved
    rw [Option.toList_none, List.append_nil]
    refine ⟨hspares.accepts db h.writesLeft, fun key hkey => ?_⟩
    rw [hspares.confined db key hkey]
    exact h.keys key hkey
  | some height =>
    cases write with
    | saveBlock block =>
      obtain rfl := Option.some.inj hsaved
      have hrun : (((TypedWrite.saveBlock block).run P).run db).2 =
          ((Prims.saveBlock P block).run db).2 := by
        rw [TypedWrite.run, Procedure.bind_run_ok (saveBlock_run h.writesLeft block),
          saveBlock_run h.writesLeft]
        rfl
      rw [hrun]
      exact h.saveBlock block
    | _ => cases hsaved

/-- **The block keys after a run** are those of the saved heights. -/
theorem hasHeights_writeRun (writes : List TypedWrite) :
    HasHeights (savedHeights writes) (writeRun P writes) := by
  induction writes using List.reverseRecOn with
  | nil =>
    refine ⟨rfl, fun key _ => ?_⟩
    show ((∅ : ByteMap)[key]?).isSome ↔ _
    rw [Std.ExtTreeMap.getElem?_empty]
    simp [savedHeights]
  | append_singleton writes write ih =>
    have hsaved : savedHeights (writes ++ [write]) =
        savedHeights writes ++ write.savedHeight.toList := by
      rw [savedHeights, List.filterMap_append]
      cases h : write.savedHeight <;> simp [savedHeights, h]
    rw [writeRun, List.foldl_concat, hsaved]
    exact ih.step write

/-- The scan reads the saved heights and no others. -/
theorem HasHeights.mem_readHeights (h : HasHeights heights db) (height : UInt64) :
    height ∈ readHeights (db.entries.scan (utf8 "b:")) ↔ height ∈ heights := by
  have hblock : ∀ key : Bytes, utf8 "b:" <+: key → ¬ NotBlock key := by
    rintro key ⟨suffix, rfl⟩
    exact fun hkey => hkey rfl
  rw [readHeights, List.mem_filterMap]
  constructor
  · rintro ⟨⟨key, value⟩, hmem, hparse⟩
    obtain ⟨hstart, hvalue⟩ := mem_scan.mp hmem
    obtain ⟨saved, hsaved, rfl⟩ := (h.keys key (hblock key hstart)).mp (by rw [hvalue]; rfl)
    rw [parseBlockHeightKey_blockKey] at hparse
    rwa [← Option.some.inj hparse]
  · intro hheight
    have hstart : utf8 "b:" <+: blockKey height := List.prefix_append _ _
    obtain ⟨value, hvalue⟩ := Option.isSome_iff_exists.mp
      ((h.keys _ (hblock _ hstart)).mpr ⟨height, hheight, rfl⟩)
    exact ⟨(blockKey height, value), mem_scan.mpr ⟨hstart, hvalue⟩,
      parseBlockHeightKey_blockKey height⟩

end Writers

/-- **The reported height is the largest that was saved**: after any run of the writers, it is
nothing when no block was saved, and the largest height of a saved block otherwise. -/
theorem latest_height_is_maximum (P : Primitives) (writes : List TypedWrite) :
    (latestBlockHeight (writeRun P writes) = none ↔ savedHeights writes = []) ∧
      ∀ height, latestBlockHeight (writeRun P writes) = some height →
        height ∈ savedHeights writes ∧ ∀ h ∈ savedHeights writes, h ≤ height := by
  have hlatest : IsLatest (savedHeights writes) (latestBlockHeight (writeRun P writes)) :=
    (isLatest_foldl _).congr (hasHeights_writeRun writes).mem_readHeights
  exact ⟨hlatest.none_iff, hlatest.largest⟩

end Prims
