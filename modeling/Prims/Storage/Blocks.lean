import Prims.Storage.Backend

/-!
# Blocks in the store

`save_block` and `get_block`. A block is stored under its height, and the hash of its header is an
index to the height. Blocks at one height overwrite one another, and their hashes all stay in the
index.

## Main definitions

* `saveBlock`, `getBlock`
* `saveBlocks`: the store after a list of blocks was saved
* `lastSaved`: the last of the saved blocks with a property

## Main results

* `getBlock_saveBlocks`: the block at a height is the last one saved there
* `getElem?_saveBlocks_index`: a hash leads to the height of the last block saved with it
-/

namespace Prims

open Bincode ByteMap

variable (P : Primitives)

def saveBlock (block : Block) : StorageM Bytes := do
  let blockHash := (hashBlockHeader P block.header).toList
  put (blockKey block.header.height) (serialize block)
  put (heightIndexKey blockHash) (serialize block.header.height)
  return blockHash

def getBlock (db : Db) (height : UInt64) : Except StorageError (Option Block) :=
  db.getRecord (blockKey height)

/-- The store after some blocks were saved, one after the other, in an empty one. -/
def saveBlocks (blocks : List Block) : Db :=
  blocks.foldl (fun db block => ((saveBlock P block).run db).2) {}

/-- The last of the saved blocks with a property. -/
def lastSaved (blocks : List Block) (p : Block → Bool) : Option Block := blocks.reverse.find? p

variable {P}

theorem lastSaved_concat (blocks : List Block) (block : Block) (p : Block → Bool) :
    lastSaved (blocks ++ [block]) p = if p block then some block else lastSaved blocks p :=
  find?_reverse_concat blocks block p

theorem lastSaved_eq_some {blocks : List Block} {p : Block → Bool} {block : Block}
    (h : lastSaved blocks p = some block) : block ∈ blocks ∧ p block :=
  ⟨List.mem_reverse.mp (List.mem_of_find?_eq_some h), List.find?_some h⟩

theorem exists_lastSaved {blocks : List Block} {p : Block → Bool} {block : Block}
    (hmem : block ∈ blocks) (hp : p block) : ∃ last, lastSaved blocks p = some last := by
  rw [← Option.isSome_iff_exists, lastSaved, List.find?_isSome]
  exact ⟨block, List.mem_reverse.mpr hmem, hp⟩

/-- Saving a block is two writes, when the backend accepts all of them. -/
theorem saveBlock_run {db : Db} (hwrites : db.writesLeft = none) (block : Block) :
    (saveBlock P block).run db = (.ok (hashBlockHeader P block.header).toList,
      ⟨(db.entries.insert (blockKey block.header.height) (serialize block)).insert
        (heightIndexKey (hashBlockHeader P block.header).toList)
          (serialize block.header.height), none⟩) := by
  rw [saveBlock, put, Procedure.bind_run_ok (Db.write_run hwrites), put,
    Procedure.bind_run_ok (Db.write_run rfl)]
  rfl

theorem writesLeft_saveBlocks (blocks : List Block) : (saveBlocks P blocks).writesLeft = none := by
  refine List.foldlRecOn (motive := fun db : Db => db.writesLeft = none) blocks _ rfl
    fun db h block _ => ?_
  rw [saveBlock_run h]

theorem saveBlocks_concat (blocks : List Block) (block : Block) :
    saveBlocks P (blocks ++ [block]) = ((saveBlock P block).run (saveBlocks P blocks)).2 := by
  rw [saveBlocks, List.foldl_append]
  rfl

theorem entries_saveBlocks_concat (blocks : List Block) (block : Block) :
    (saveBlocks P (blocks ++ [block])).entries =
      ((saveBlocks P blocks).entries.insert (blockKey block.header.height) (serialize block)).insert
        (heightIndexKey (hashBlockHeader P block.header).toList)
          (serialize block.header.height) := by
  rw [saveBlocks_concat, saveBlock_run (writesLeft_saveBlocks blocks)]

/-- The record under a height is the last block saved there. -/
theorem getElem?_saveBlocks_block (blocks : List Block) (height : UInt64) :
    (saveBlocks P blocks).entries[blockKey height]? =
      (lastSaved blocks fun block => block.header.height = height).map serialize := by
  induction blocks using List.reverseRecOn with
  | nil => exact Std.ExtTreeMap.getElem?_empty
  | append_singleton blocks block ih =>
    rw [entries_saveBlocks_concat, getElem?_insert_eq,
      if_neg (blockKey_ne_heightIndexKey _ _).symm, getElem?_insert_eq, ih, lastSaved_concat]
    by_cases h : block.header.height = height
    · rw [if_pos (congrArg blockKey h), if_pos (decide_eq_true h)]
      rfl
    · rw [if_neg (blockKey_injective.ne h), if_neg (by simpa using h)]

/-- **A hash leads to the height** of the last block that was saved with it. -/
theorem getElem?_saveBlocks_index (blocks : List Block) (hash : Bytes) :
    (saveBlocks P blocks).entries[heightIndexKey hash]? =
      (lastSaved blocks fun block => (hashBlockHeader P block.header).toList = hash).map
        fun block => serialize block.header.height := by
  induction blocks using List.reverseRecOn with
  | nil => exact Std.ExtTreeMap.getElem?_empty
  | append_singleton blocks block ih =>
    rw [entries_saveBlocks_concat, getElem?_insert_eq, lastSaved_concat]
    by_cases h : (hashBlockHeader P block.header).toList = hash
    · rw [if_pos (congrArg heightIndexKey h), if_pos (decide_eq_true h)]
      rfl
    · rw [if_neg (heightIndexKey_injective.ne h), getElem?_insert_eq,
        if_neg (blockKey_ne_heightIndexKey _ _), ih, if_neg (by simpa using h)]

/-- **The block at a height** is the last one that was saved there. -/
theorem getBlock_saveBlocks {blocks : List Block} (hfits : ∀ block ∈ blocks, Codec.Fits block)
    (height : UInt64) :
    getBlock (saveBlocks P blocks) height =
      .ok (lastSaved blocks fun block => block.header.height = height) := by
  have hrecord := getElem?_saveBlocks_block (P := P) blocks height
  cases hlast : lastSaved blocks fun block => block.header.height = height with
  | none =>
    rw [hlast] at hrecord
    exact getRecord_eq_none.mpr hrecord
  | some block =>
    rw [hlast] at hrecord
    exact getRecord_serialize (hfits block (lastSaved_eq_some hlast).1) hrecord

end Prims
