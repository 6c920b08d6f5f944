import Prims.Api.Rpc

/-!
# Looking up blocks

The RPC method `get_block` finds a block by its height or by the hash of its header. The index by
hash has heights, and the store has one block for every height, so a hash leads to the last block
that was saved at a height, whatever its hash is. The lookup is right as long as all blocks that are
saved at one height have one hash.

## Main definitions

* `Rpc.getBlock`: the method
* `LooksUpByHash`: a lookup by hash finds nothing or a block with the hash, and it finds every block
  in the store
* `OneHashPerHeight`: the blocks at one height have one hash

## Main results

* `lookup_by_hash_iff`: after a run of saves, lookups by hash are right if and only if the blocks at
  one height have one hash, unless there is a collision
-/

namespace Prims

open Bincode

variable (P : Primitives)

structure GetBlockParams where
  height : Option UInt64 := none
  hash : Option String := none

/-- The block at the height that the index has for a hash. -/
def Rpc.loadIndexedBlock (storage : Db) (hashBytes : Bytes) : Except RpcError (Option Block) :=
  match storage.entries[heightIndexKey hashBytes]? with
  | none => .ok none
  | some heightBytes => do
    let height ← (deserialize heightBytes).mapError .heightIndex
    (Prims.getBlock storage height).mapError (.loadIndexedBlock height)

def Rpc.getBlock (storage : Db) (query : GetBlockParams) :
    Except RpcError (Option RpcBlockResponse) :=
  match query.height, query.hash with
  | some height, none => do
    let block ← (Prims.getBlock storage height).mapError (.loadBlock height)
    return block.map (blockToRpc P)
  | none, some hashHex => do
    let hashBytes ← decodeHex hashHex "hash"
    let block ← Rpc.loadIndexedBlock storage hashBytes
    return block.map (blockToRpc P)
  | some _, some _ => .error .notOneSelector
  | none, none => .error .noSelector

/-- Lookups by hash find nothing or a block with the hash, and they find every block that is in the
store. -/
structure LooksUpByHash (storage : Db) : Prop where
  sound : ∀ text hash, decodeHex text "hash" = .ok hash →
    Rpc.getBlock P storage { hash := some text } = .ok none ∨
      ∃ block, Rpc.getBlock P storage { hash := some text } = .ok (some (blockToRpc P block)) ∧
        (hashBlockHeader P block.header).toList = hash
  complete : ∀ block, getBlock storage block.header.height = .ok (some block) →
    ∀ text, decodeHex text "hash" = .ok (hashBlockHeader P block.header).toList →
      ∃ response, Rpc.getBlock P storage { hash := some text } = .ok (some response)

/-- The blocks at one height have one hash. -/
def OneHashPerHeight (blocks : List Block) : Prop :=
  ∀ a ∈ blocks, ∀ b ∈ blocks, a.header.height = b.header.height →
    hashBlockHeader P a.header = hashBlockHeader P b.header

/-- The block that a hash leads to. -/
def indexedBlock (blocks : List Block) (hash : Bytes) : Option Block := do
  let saved ← lastSaved blocks fun block => (hashBlockHeader P block.header).toList = hash
  lastSaved blocks fun block => block.header.height = saved.header.height

variable {P} {blocks : List Block}

theorem encodeHex_injective : Function.Injective encodeHex := by
  intro a b h
  have hdecoded := congrArg (fun text => decodeHex text "") h
  simp only [decodeHex_encodeHex] at hdecoded
  exact Except.ok.inj hdecoded

/-- A view has the hash of its block. -/
theorem hash_eq_of_blockToRpc_eq {a b : Block} (h : blockToRpc P a = blockToRpc P b) :
    hashBlockHeader P a.header = hashBlockHeader P b.header :=
  Subtype.ext (encodeHex_injective (congrArg RpcBlockResponse.hash h))

/-- The method returns the block that the hash leads to. -/
theorem getBlock_saveBlocks_hash (hfits : ∀ block ∈ blocks, Codec.Fits block) {text : String}
    {hash : Bytes} (htext : decodeHex text "hash" = .ok hash) :
    Rpc.getBlock P (saveBlocks P blocks) { hash := some text } =
      .ok ((indexedBlock P blocks hash).map (blockToRpc P)) := by
  have hindexed : Rpc.loadIndexedBlock (saveBlocks P blocks) hash =
      .ok (indexedBlock P blocks hash) := by
    rw [Rpc.loadIndexedBlock, getElem?_saveBlocks_index, indexedBlock]
    cases lastSaved blocks fun block => (hashBlockHeader P block.header).toList = hash with
    | none => rfl
    | some saved =>
      have hheight : deserialize (serialize saved.header.height) = .ok saved.header.height :=
        deserialize_serialize trivial
      show ((deserialize (serialize saved.header.height)).mapError RpcError.heightIndex >>=
        fun height => _) = _
      rw [hheight]
      show (getBlock (saveBlocks P blocks) saved.header.height).mapError _ = _
      rw [getBlock_saveBlocks hfits]
      rfl
  show (decodeHex text "hash" >>= fun hashBytes => _) = _
  rw [htext]
  show (Rpc.loadIndexedBlock (saveBlocks P blocks) hash >>= fun block => _) = _
  rw [hindexed]
  rfl

/-- A block that was saved is the last one with its hash and its height, or another one was saved
after it. -/
theorem exists_indexedBlock {block : Block} (hmem : block ∈ blocks) :
    ∃ saved indexed, indexedBlock P blocks (hashBlockHeader P block.header).toList = some indexed ∧
      saved ∈ blocks ∧ indexed ∈ blocks ∧
      hashBlockHeader P saved.header = hashBlockHeader P block.header ∧
      lastSaved blocks (fun block => block.header.height = saved.header.height) = some indexed ∧
      indexed.header.height = saved.header.height := by
  obtain ⟨saved, hsaved⟩ := exists_lastSaved
    (p := fun b => (hashBlockHeader P b.header).toList = (hashBlockHeader P block.header).toList)
    hmem (decide_eq_true rfl)
  obtain ⟨hsavedMem, hhash⟩ := lastSaved_eq_some hsaved
  obtain ⟨indexed, hindexed⟩ := exists_lastSaved
    (p := fun b => b.header.height = saved.header.height) hsavedMem (decide_eq_true rfl)
  obtain ⟨hindexedMem, hheight⟩ := lastSaved_eq_some hindexed
  refine ⟨saved, indexed, ?_, hsavedMem, hindexedMem, Subtype.ext (of_decide_eq_true hhash),
    hindexed, of_decide_eq_true hheight⟩
  rw [indexedBlock, hsaved]
  exact hindexed

/-- Lookups are right when the blocks at one height have one hash. -/
theorem looksUpByHash_of_oneHashPerHeight (hfits : ∀ block ∈ blocks, Codec.Fits block)
    (hone : OneHashPerHeight P blocks) : LooksUpByHash P (saveBlocks P blocks) := by
  constructor
  · intro text hash htext
    rw [getBlock_saveBlocks_hash hfits htext]
    cases hsaved : lastSaved blocks fun b => (hashBlockHeader P b.header).toList = hash with
    | none =>
      refine .inl ?_
      rw [indexedBlock, hsaved]
      rfl
    | some block =>
      obtain ⟨hmem, hhash⟩ := lastSaved_eq_some hsaved
      obtain rfl := of_decide_eq_true hhash
      obtain ⟨saved, indexed, hindexed, hsavedMem, hindexedMem, hsame, -, hheight⟩ :=
        exists_indexedBlock (P := P) hmem
      refine .inr ⟨indexed, by rw [hindexed]; rfl, ?_⟩
      rw [hone indexed hindexedMem saved hsavedMem hheight, hsame]
  · intro block hblock text htext
    rw [getBlock_saveBlocks hfits] at hblock
    have hmem := (lastSaved_eq_some (Except.ok.inj hblock)).1
    obtain ⟨saved, indexed, hindexed, -⟩ := exists_indexedBlock (P := P) hmem
    refine ⟨blockToRpc P indexed, ?_⟩
    rw [getBlock_saveBlocks_hash hfits htext, hindexed]
    rfl

/-- When lookups are right and there is no collision, the last block at a height has the hash of
every block that was saved there. -/
theorem hash_eq_of_looksUpByHash (hfits : ∀ block ∈ blocks, Codec.Fits block)
    (hlooks : LooksUpByHash P (saveBlocks P blocks))
    (hcol : ¬ Collision P.sha256 (blocks.map fun block => serialize block.header))
    {block last : Block} (hmem : block ∈ blocks)
    (hlast : lastSaved blocks (fun b => b.header.height = block.header.height) = some last) :
    hashBlockHeader P last.header = hashBlockHeader P block.header := by
  obtain ⟨saved, indexed, hindexed, hsavedMem, hindexedMem, hsame, hindexedLast, -⟩ :=
    exists_indexedBlock (P := P) hmem
  -- one digest means one header, and so one height
  have hheader : saved.header = block.header := by
    apply serialize_injective (hfits saved hsavedMem).1 (hfits block hmem).1
    exact eq_of_hash_eq hcol (List.mem_map_of_mem hsavedMem) (List.mem_map_of_mem hmem) hsame
  rw [hheader, hlast] at hindexedLast
  obtain rfl := Option.some.inj hindexedLast
  have hfound := hlooks.sound _ _ (decodeHex_encodeHex (hashBlockHeader P block.header).toList _)
  rw [getBlock_saveBlocks_hash hfits (decodeHex_encodeHex _ _), hindexed] at hfound
  -- the method found the last block at the height, so its hash is the one that was asked for
  rcases hfound with hnone | ⟨found, hfound, hhash⟩
  · cases hnone
  · have hresponse := Option.some.inj (Except.ok.inj hfound)
    exact (hash_eq_of_blockToRpc_eq hresponse).trans (Subtype.ext hhash)

/-- **Looking a block up by its hash** is right after a run of saves when the blocks that were saved
at one height have one hash, and only then, unless two headers collide. -/
theorem lookup_by_hash_iff (P : Primitives) (blocks : List Block)
    (hfits : ∀ block ∈ blocks, Codec.Fits block) :
    (OneHashPerHeight P blocks → LooksUpByHash P (saveBlocks P blocks)) ∧
      (LooksUpByHash P (saveBlocks P blocks) → OneHashPerHeight P blocks ∨
        Collision P.sha256 (blocks.map fun block => serialize block.header)) := by
  refine ⟨looksUpByHash_of_oneHashPerHeight hfits, fun hlooks => ?_⟩
  by_cases hcol : Collision P.sha256 (blocks.map fun block => serialize block.header)
  · exact .inr hcol
  · refine .inl fun a ha b hb hheight => ?_
    obtain ⟨last, hlast⟩ := exists_lastSaved
      (p := fun block => block.header.height = b.header.height) hb (decide_eq_true rfl)
    rw [← hash_eq_of_looksUpByHash hfits hlooks hcol hb hlast]
    rw [← hheight] at hlast
    rw [hash_eq_of_looksUpByHash hfits hlooks hcol ha hlast]

/-! ## An example of a fork -/

/-- A block at height 1, with the validator and the signature left open. -/
def forkBlock (validator : UInt8) : Block where
  header :=
    { version := 1
      previousHash := List.replicate 32 0
      merkleRoot := List.replicate 32 1
      timestamp := 1710000000
      height := 1
      validator := List.replicate 32 validator
      signature := List.replicate 64 validator }
  transactions := []
  receipts := []

theorem fits_forkBlock (validator : UInt8) : Codec.Fits (forkBlock validator) := by
  apply Codec.fits_of_length
  rw [length_serialize_block, length_serialize_blockHeader]
  simp only [forkBlock, List.length_replicate]
  decide

/-- A run of saves: a block at height 1, one at height 2, and the first one again, with a receipt
that the header does not commit to. -/
def resavedBlocks : List Block :=
  [forkBlock 7, { forkBlock 7 with header := { (forkBlock 7).header with height := 2 } },
    { forkBlock 7 with receipts := [⟨[1], 0, 1, .prepare, [2]⟩] }]

theorem fits_resavedBlocks : ∀ block ∈ resavedBlocks, Codec.Fits block := by
  intro block hmem
  apply Codec.fits_of_length
  rw [length_serialize_block, length_serialize_blockHeader]
  revert block
  decide +kernel

/-- The blocks at height 1 have one header, so their hash leads to one of them. -/
theorem resavedBlocks_looksUpByHash :
    LooksUpByHash (.recorded []) (saveBlocks (.recorded []) resavedBlocks) := by
  refine (lookup_by_hash_iff (.recorded []) resavedBlocks fits_resavedBlocks).1 ?_
  have hheader : ∀ a ∈ resavedBlocks, ∀ b ∈ resavedBlocks,
      a.header.height = b.header.height → a.header = b.header := by
    decide +kernel
  intro a ha b hb hheight
  rw [hheader a ha b hb hheight]

theorem hashBlockHeader_forkBlock_ne :
    hashBlockHeader (.recorded []) (forkBlock 8).header ≠
      hashBlockHeader (.recorded []) (forkBlock 7).header := by
  decide +kernel

/-- **A hash that leads to another block**: of two blocks at height 1, the first one saved is looked
up by its hash and the second one is returned. -/
theorem fork_not_looksUpByHash :
    let storage := saveBlocks (.recorded []) [forkBlock 7, forkBlock 8]
    Rpc.getBlock (.recorded []) storage
        { hash := some (encodeHex (hashBlockHeader (.recorded []) (forkBlock 7).header).toList) } =
      .ok (some (blockToRpc (.recorded []) (forkBlock 8))) ∧
    hashBlockHeader (.recorded []) (forkBlock 8).header ≠
      hashBlockHeader (.recorded []) (forkBlock 7).header ∧
    ¬ LooksUpByHash (.recorded []) storage := by
  intro storage
  have hfits : ∀ block ∈ [forkBlock 7, forkBlock 8], Codec.Fits block := by
    intro block hmem
    rcases List.mem_cons.mp hmem with rfl | hmem
    · exact fits_forkBlock 7
    · rw [List.mem_singleton.mp hmem]
      exact fits_forkBlock 8
  have hne := hashBlockHeader_forkBlock_ne
  have hdigests : (hashBlockHeader (.recorded []) (forkBlock 8).header).toList ≠
      (hashBlockHeader (.recorded []) (forkBlock 7).header).toList := fun h => hne (Subtype.ext h)
  have hindexed : indexedBlock (.recorded []) [forkBlock 7, forkBlock 8]
      (hashBlockHeader (.recorded []) (forkBlock 7).header).toList = some (forkBlock 8) := by
    have hfirst : lastSaved [forkBlock 7, forkBlock 8] (fun block =>
        (hashBlockHeader (.recorded []) block.header).toList =
          (hashBlockHeader (.recorded []) (forkBlock 7).header).toList) = some (forkBlock 7) := by
      rw [lastSaved, List.reverse_cons, List.reverse_singleton, List.singleton_append,
        List.find?_cons_of_neg (by simpa using hdigests),
        List.find?_cons_of_pos (by simp)]
    rw [indexedBlock, hfirst]
    rfl
  have hfound := getBlock_saveBlocks_hash (P := .recorded []) hfits (decodeHex_encodeHex
    (hashBlockHeader (.recorded []) (forkBlock 7).header).toList "hash")
  rw [hindexed] at hfound
  refine ⟨hfound, hne, fun hlooks => ?_⟩
  rcases hlooks.sound _ _ (decodeHex_encodeHex
    (hashBlockHeader (.recorded []) (forkBlock 7).header).toList "hash") with
    hnone | ⟨block, hblock, hhash⟩
  · rw [hfound] at hnone
    cases hnone
  · rw [hfound] at hblock
    have hresponse := Option.some.inj (Except.ok.inj hblock)
    exact hne ((hash_eq_of_blockToRpc_eq hresponse).trans (Subtype.ext hhash))

end Prims
