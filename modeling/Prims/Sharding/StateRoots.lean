import Prims.Lib.Simulation
import Prims.Sharding.BeaconChain

/-!
# The history of the beacon chain

The beacon chain keeps the state roots of all shards in all epochs in one table, in the order of
epochs and shards. A root may be stored for any epoch, past and future ones as well. When an epoch
begins, and whenever its committees are built anew, the shards that have no root yet get the empty
one.

Seen from outside the table is a map: under every epoch and shard there is the last root that was
stored there, and before that the empty root as soon as the epoch has begun.

## Main definitions

* `storeShardStateRoot`, `stateRootForShard`, `updateShardStateRootFromBlock`
* `BeaconCall`: the calls that change the beacon chain while the configuration stays
* `lastStored`: the last root that a run stored successfully for a shard
* `RootsInOrder`: unique keys in order, and only roots of the length of a root

## Main results

* `stateRootForShard_step`: what a call does to the map
* `beacon_history_refines_map`: the history after any run
-/

namespace Prims

def validateStateRootLength (stateRoot : Bytes) : Except BeaconChainError Unit :=
  ensure (stateRoot.length = shardStateRootLength)
    (.invalidStateRootLength shardStateRootLength stateRoot.length)

/-- A root that is there is replaced in place. A new one is put at the end, and the table is sorted
again. -/
def insertStateRoot (roots : List ShardStateRoot) (epoch : UInt64) (shardId : UInt16)
    (stateRoot : Bytes) : List ShardStateRoot :=
  match roots.findIdx? fun root => root.epoch = epoch && root.shardId = shardId with
  | some i => roots.modify i fun root => { root with stateRoot }
  | none =>
    (roots ++ [{ epoch, shardId, stateRoot : ShardStateRoot }]).mergeSort fun left right =>
      (cmpEpochShard left.key right.key).isLE

namespace BeaconChain

def storeShardStateRoot (epoch : UInt64) (shardId : UInt16) (stateRoot : Bytes) :
    Procedure BeaconChainError BeaconChain Unit := do
  Procedure.read fun chain => validateShardId shardId chain.config.shardCount
  Procedure.lift (validateStateRootLength stateRoot)
  Procedure.modify fun chain =>
    { chain with
      shardStateRoots := insertStateRoot chain.shardStateRoots epoch shardId stateRoot }

def stateRootForShard (chain : BeaconChain) (epoch : UInt64) (shardId : UInt16) : Option Bytes :=
  (chain.shardStateRoots.find? fun root =>
    root.epoch = epoch && root.shardId = shardId).map ShardStateRoot.stateRoot

def updateShardStateRootFromBlock (epoch : UInt64) (shardId : UInt16) (block : Block) :
    Procedure BeaconChainError BeaconChain Unit :=
  storeShardStateRoot epoch shardId block.header.merkleRoot

end BeaconChain

/-! ## The table of roots -/

/-- **The table is in order**: its keys are unique and sorted by epoch and shard, and every root has
the length of a root. -/
structure RootsInOrder (roots : List ShardStateRoot) : Prop where
  sorted : roots.Pairwise fun left right => cmpEpochShard left.key right.key = .lt
  lengths : ∀ root ∈ roots, root.stateRoot.length = shardStateRootLength

instance : Std.LawfulEqCmp cmpEpochShard where
  compare_self := Std.ReflCmp.compare_self
  eq_of_compare {left right} h := by
    have hthen : (compare left.1 right.1).then (compare left.2 right.2) = .eq := h
    rw [Ordering.then_eq_eq] at hthen
    exact Prod.ext (Std.LawfulEqCmp.eq_of_compare hthen.1) (Std.LawfulEqCmp.eq_of_compare hthen.2)

theorem RootsInOrder.nodup {roots : List ShardStateRoot} (h : RootsInOrder roots) :
    (roots.map ShardStateRoot.key).Nodup :=
  nodup_of_pairwise_lt h.sorted

/-- Sorting puts a table without a repeated key in order. -/
theorem rootsInOrder_mergeSort {roots : List ShardStateRoot}
    (hnodup : (roots.map ShardStateRoot.key).Nodup)
    (hlengths : ∀ root ∈ roots, root.stateRoot.length = shardStateRootLength) :
    RootsInOrder (roots.mergeSort fun left right =>
      (cmpEpochShard left.key right.key).isLE) where
  sorted := pairwise_lt_sortByKey cmpEpochShard ShardStateRoot.key hnodup
  lengths root h := hlengths root (List.mem_mergeSort.mp h)

/-- A root is looked up by its key. -/
theorem eq_key (epoch : UInt64) (shardId : UInt16) :
    (fun root : ShardStateRoot => decide (root.epoch = epoch) && decide (root.shardId = shardId)) =
      fun root => decide (root.key = (epoch, shardId)) := by
  funext root
  rw [← Bool.decide_and]
  exact decide_eq_decide.mpr Prod.mk_inj.symm

/-- The root under a key. -/
def rootAt (roots : List ShardStateRoot) (key : UInt64 × UInt16) : Option Bytes :=
  (roots.find? fun root => root.key = key).map ShardStateRoot.stateRoot

theorem stateRootForShard_eq (chain : BeaconChain) (epoch : UInt64) (shardId : UInt16) :
    chain.stateRootForShard epoch shardId = rootAt chain.shardStateRoots (epoch, shardId) := by
  rw [BeaconChain.stateRootForShard, eq_key]
  rfl

theorem rootAt_mergeSort (roots : List ShardStateRoot) (key : UInt64 × UInt16) :
    rootAt (roots.mergeSort fun left right => (cmpEpochShard left.key right.key).isLE) key =
      rootAt roots key := by
  refine congrArg (Option.map _) (find?_sortByKey cmpEpochShard ShardStateRoot.key ?_)
  intro left right hleft hright
  exact (of_decide_eq_true hleft).trans (of_decide_eq_true hright).symm

/-- A root that is replaced is found under its key. -/
theorem rootAt_modify {roots : List ShardStateRoot} {entry : UInt64 × UInt16} {i : ℕ}
    (hidx : roots.findIdx? (fun root => root.key = entry) = some i) (stateRoot : Bytes)
    (key : UInt64 × UInt16) :
    rootAt (roots.modify i fun root => { root with stateRoot }) key =
      if key = entry then some stateRoot else rootAt roots key := by
  by_cases hkey : key = entry
  · subst hkey
    rw [if_pos rfl, rootAt,
      find?_modify_self (f := fun root => { root with stateRoot }) hidx fun root => rfl]
    have hsome : (roots.find? fun root => root.key = key).isSome := by
      have hi : (roots.findIdx? fun root => root.key = key).isSome := by
        rw [hidx]
        rfl
      rw [List.findIdx?_isSome, List.any_eq_true] at hi
      exact List.find?_isSome.mpr hi
    obtain ⟨root, hroot⟩ := Option.isSome_iff_exists.mp hsome
    rw [hroot]
    rfl
  · rw [if_neg hkey]
    have hother : ∀ root : ShardStateRoot, decide (root.key = entry) = true →
        decide (root.key = key) = false := by
      intro root h
      rw [decide_eq_true_eq] at h
      rw [h, decide_eq_false_iff_not]
      exact fun heq => hkey heq.symm
    rw [rootAt, find?_modify_other (f := fun root => { root with stateRoot }) hidx hother hother]
    rfl

/-- A root that is added is found under its key. -/
theorem rootAt_concat {roots : List ShardStateRoot} (root : ShardStateRoot)
    (hidx : roots.findIdx? (fun other => other.key = root.key) = none) (key : UInt64 × UInt16) :
    rootAt (roots ++ [root]) key =
      if key = root.key then some root.stateRoot else rootAt roots key := by
  rw [rootAt, List.find?_append, List.find?_singleton]
  by_cases hkey : key = root.key
  · subst hkey
    have hnone : (roots.find? fun other => other.key = root.key) = none := by
      simpa using hidx
    rw [hnone]
    simp
  · rw [if_neg hkey, if_neg fun h => hkey (of_decide_eq_true h).symm, Option.or_none]
    rfl

/-- **Inserting a root** changes what is found under its own key, and nothing else. -/
theorem rootAt_insertStateRoot (roots : List ShardStateRoot) (epoch : UInt64) (shardId : UInt16)
    (stateRoot : Bytes) (key : UInt64 × UInt16) :
    rootAt (insertStateRoot roots epoch shardId stateRoot) key =
      if key = (epoch, shardId) then some stateRoot else rootAt roots key := by
  rw [insertStateRoot, eq_key]
  cases hidx : roots.findIdx? fun root => root.key = (epoch, shardId) with
  | some i => exact rootAt_modify hidx stateRoot key
  | none =>
    show rootAt (List.mergeSort _ _) key = _
    rw [rootAt_mergeSort]
    exact rootAt_concat { epoch, shardId, stateRoot } hidx key

/-- Replacing a root keeps the keys. -/
theorem RootsInOrder.modify {roots : List ShardStateRoot} (h : RootsInOrder roots) (i : ℕ)
    {stateRoot : Bytes} (hlength : stateRoot.length = shardStateRootLength) :
    RootsInOrder (roots.modify i fun root => { root with stateRoot }) := by
  constructor
  · have hkeys := map_modify_of_eq (g := ShardStateRoot.key)
      (f := fun root => { root with stateRoot }) (fun root => rfl) roots i
    have hsorted : (roots.map ShardStateRoot.key).Pairwise fun left right =>
        cmpEpochShard left right = .lt := List.pairwise_map.mpr h.sorted
    rw [← hkeys] at hsorted
    exact List.pairwise_map.mp hsorted
  · intro root hroot
    obtain ⟨j, hj⟩ := List.mem_iff_getElem?.mp hroot
    rw [List.getElem?_modify] at hj
    obtain ⟨old, hold, rfl⟩ := Option.map_eq_some_iff.mp hj
    by_cases hij : i = j
    · simpa [hij] using hlength
    · simpa [hij] using h.lengths old (List.mem_of_getElem? hold)

theorem RootsInOrder.insertStateRoot {roots : List ShardStateRoot} (h : RootsInOrder roots)
    (epoch : UInt64) (shardId : UInt16) {stateRoot : Bytes}
    (hlength : stateRoot.length = shardStateRootLength) :
    RootsInOrder (insertStateRoot roots epoch shardId stateRoot) := by
  rw [Prims.insertStateRoot, eq_key]
  cases hidx : roots.findIdx? fun root => root.key = (epoch, shardId) with
  | some i => exact h.modify i hlength
  | none =>
    have hnew : (epoch, shardId) ∉ roots.map ShardStateRoot.key := by
      intro hmem
      obtain ⟨root, hroot, hkey⟩ := List.mem_map.mp hmem
      have hfalse := List.findIdx?_eq_none_iff.mp hidx root hroot
      rw [hkey, decide_eq_false_iff_not] at hfalse
      exact hfalse rfl
    refine rootsInOrder_mergeSort ?_ ?_
    · rw [List.map_append, List.nodup_append_comm]
      exact List.nodup_cons.mpr ⟨hnew, h.nodup⟩
    · intro root hroot
      rcases List.mem_append.mp hroot with hold | hlast
      · exact h.lengths root hold
      · rw [List.mem_singleton.mp hlast]
        exact hlength

/-! ## The roots of an epoch that begins -/

/-- The keys of an epoch. -/
def epochKeys (epoch : UInt64) (shardCount : UInt16) : List (UInt64 × UInt16) :=
  (shardIds shardCount).map fun shardId => (epoch, shardId)

theorem mem_epochKeys {epoch : UInt64} {shardCount : UInt16} {key : UInt64 × UInt16} :
    key ∈ epochKeys epoch shardCount ↔ key.1 = epoch ∧ key.2 < shardCount := by
  rw [epochKeys, List.mem_map]
  constructor
  · rintro ⟨shardId, hmem, rfl⟩
    exact ⟨rfl, mem_shardIds.mp hmem⟩
  · rintro ⟨rfl, hlt⟩
    exact ⟨key.2, mem_shardIds.mpr hlt, rfl⟩

/-- The empty root under a key. -/
def emptyRootAt (key : UInt64 × UInt16) : ShardStateRoot := ⟨key.1, key.2, emptyShardStateRoot⟩

theorem initializeStateRootsForEpoch_eq (chain : BeaconChain) (epoch : UInt64) :
    (chain.initializeStateRootsForEpoch epoch).shardStateRoots =
      (addMissing ShardStateRoot.key emptyRootAt (epochKeys epoch chain.config.shardCount)
        chain.shardStateRoots).mergeSort fun left right =>
          (cmpEpochShard left.key right.key).isLE := by
  rw [BeaconChain.initializeStateRootsForEpoch, addMissing, epochKeys, List.foldl_map]
  simp only [eq_key]
  rfl

/-- **The roots of an epoch** that begins: the shards without a root get the empty one. -/
theorem rootAt_initializeStateRootsForEpoch (chain : BeaconChain) (epoch : UInt64)
    (key : UInt64 × UInt16) :
    rootAt (chain.initializeStateRootsForEpoch epoch).shardStateRoots key =
      (rootAt chain.shardStateRoots key).or
        (if key.1 = epoch ∧ key.2 < chain.config.shardCount then some emptyShardStateRoot
          else none) := by
  rw [initializeStateRootsForEpoch_eq, rootAt_mergeSort, rootAt, find?_addMissing fun _ => rfl,
    Option.map_or, rootAt]
  congr 1
  by_cases h : key ∈ epochKeys epoch chain.config.shardCount
  · rw [if_pos h, if_pos (mem_epochKeys.mp h)]
    rfl
  · rw [if_neg h, if_neg (h ∘ mem_epochKeys.mpr)]
    rfl

theorem RootsInOrder.initializeStateRootsForEpoch {chain : BeaconChain}
    (h : RootsInOrder chain.shardStateRoots) (epoch : UInt64) :
    RootsInOrder (chain.initializeStateRootsForEpoch epoch).shardStateRoots := by
  rw [initializeStateRootsForEpoch_eq]
  refine rootsInOrder_mergeSort (nodup_addMissing (fun _ => rfl) _ h.nodup) fun root hroot => ?_
  rcases mem_addMissing hroot with hold | ⟨key, -, rfl⟩
  · exact h.lengths root hold
  · exact List.length_replicate

/-! ## Calls -/

/-- The calls that change the beacon chain while its configuration stays. -/
inductive BeaconCall where
  | store (epoch : UInt64) (shardId : UInt16) (stateRoot : Bytes)
  | updateFromBlock (epoch : UInt64) (shardId : UInt16) (block : Block)
  | register (validator : Validator)
  | replace (validators : List Validator)
  | advance

namespace BeaconCall

def run : BeaconCall → Procedure BeaconChainError BeaconChain Unit
  | .store epoch shardId stateRoot => BeaconChain.storeShardStateRoot epoch shardId stateRoot
  | .updateFromBlock epoch shardId block =>
    BeaconChain.updateShardStateRootFromBlock epoch shardId block
  | .register validator => Procedure.modify fun chain => chain.registerValidator validator
  | .replace validators => Procedure.modify fun chain => chain.replaceValidators validators
  | .advance => Procedure.modify BeaconChain.advanceEpoch

/-- The root that a call is to store. -/
def request : BeaconCall → Option ShardStateRoot
  | .store epoch shardId stateRoot => some ⟨epoch, shardId, stateRoot⟩
  | .updateFromBlock epoch shardId block => some ⟨epoch, shardId, block.header.merkleRoot⟩
  | .register _ => none
  | .replace _ => none
  | .advance => none

def isAdvance : BeaconCall → Bool
  | .advance => true
  | _ => false

/-- The state after a call. -/
def next (chain : BeaconChain) (call : BeaconCall) : BeaconChain := (call.run.run chain).2

/-- The root that a call stores successfully under a key. -/
def stored (chain : BeaconChain) (call : BeaconCall) (key : UInt64 × UInt16) : Option Bytes :=
  match call.request with
  | some root =>
    if (call.run.run chain).1 = .ok () ∧ root.key = key then some root.stateRoot else none
  | none => none

end BeaconCall

/-- The last root that a run stores successfully for a shard. -/
def lastStored : BeaconChain → List BeaconCall → UInt64 × UInt16 → Option Bytes
  | _, [], _ => none
  | chain, call :: calls, key =>
    (lastStored (BeaconCall.next chain call) calls key).or (BeaconCall.stored chain call key)

theorem lastStored_concat (chain : BeaconChain) (calls : List BeaconCall) (call : BeaconCall)
    (key : UInt64 × UInt16) :
    lastStored chain (calls ++ [call]) key =
      (BeaconCall.stored (calls.foldl BeaconCall.next chain) call key).or
        (lastStored chain calls key) := by
  induction calls generalizing chain with
  | nil =>
    rw [lastStored, Option.or_none]
    rfl
  | cons first calls ih =>
    show (lastStored _ (calls ++ [call]) key).or _ = _
    rw [ih, Option.or_assoc]
    rfl

/-- **Storing a root** either puts it into the table or fails and changes nothing. -/
theorem storeShardStateRoot_cases (chain : BeaconChain) (root : ShardStateRoot) :
    (root.stateRoot.length = shardStateRootLength ∧
      (BeaconChain.storeShardStateRoot root.epoch root.shardId root.stateRoot).run chain =
        (.ok (), { chain with
          shardStateRoots :=
            insertStateRoot chain.shardStateRoots root.epoch root.shardId root.stateRoot })) ∨
    ∃ error, (BeaconChain.storeShardStateRoot root.epoch root.shardId root.stateRoot).run chain =
      (.error error, chain) := by
  rw [BeaconChain.storeShardStateRoot, Procedure.read_bind_run, validateShardId, ensure]
  split_ifs with hshard
  · show _ ∨ ∃ error, (Procedure.lift (validateStateRootLength root.stateRoot) >>= _).run chain = _
    rw [validateStateRootLength, Procedure.ensure_bind_run]
    split_ifs with hlength
    · exact .inl ⟨hlength, rfl⟩
    · exact .inr ⟨_, rfl⟩
  · exact .inr ⟨_, rfl⟩

theorem BeaconCall.request_of_isAdvance {call : BeaconCall} (h : call.isAdvance = true) :
    call.request = none := by
  cases call <;> first | rfl | cases h

/-- A call stores a root, or it builds the current epoch or the one after it anew, or it fails and
changes nothing. -/
theorem BeaconCall.next_cases (chain : BeaconChain) (call : BeaconCall) :
    (∃ root, call.request = some root ∧ call.isAdvance = false ∧
      ((root.stateRoot.length = shardStateRootLength ∧
        call.run.run chain = (.ok (), { chain with
          shardStateRoots :=
            insertStateRoot chain.shardStateRoots root.epoch root.shardId root.stateRoot })) ∨
      ∃ error, call.run.run chain = (.error error, chain))) ∨
    (call.request = none ∧ ∃ validators, call.run.run chain = (.ok (),
      { chain with validators }.rebuildEpoch
        (if call.isAdvance then chain.currentEpoch + 1 else chain.currentEpoch))) := by
  cases call with
  | store epoch shardId stateRoot =>
    exact .inl ⟨_, rfl, rfl, storeShardStateRoot_cases chain ⟨epoch, shardId, stateRoot⟩⟩
  | updateFromBlock epoch shardId block =>
    exact .inl ⟨_, rfl, rfl,
      storeShardStateRoot_cases chain ⟨epoch, shardId, block.header.merkleRoot⟩⟩
  | register validator => exact .inr ⟨rfl, _, rfl⟩
  | replace validators => exact .inr ⟨rfl, _, rfl⟩
  | advance => exact .inr ⟨rfl, chain.validators, rfl⟩

/-! ## What a call does -/

namespace BeaconChain

variable (chain : BeaconChain) (call : BeaconCall)

@[simp] theorem currentEpoch_rebuildEpoch (epoch : UInt64) :
    (chain.rebuildEpoch epoch).currentEpoch = epoch := rfl

/-- A call that fails changes nothing. -/
theorem next_eq_self_of_error (h : (call.run.run chain).1 ≠ .ok ()) : call.next chain = chain := by
  rcases call.next_cases chain with ⟨root, -, -, hstored | ⟨error, herror⟩⟩ | ⟨-, validators, hrun⟩
  · rw [hstored.2] at h
    exact absurd rfl h
  · rw [BeaconCall.next, herror]
  · rw [hrun] at h
    exact absurd rfl h

theorem config_next : (call.next chain).config = chain.config := by
  rcases call.next_cases chain with ⟨root, -, -, hstored | ⟨error, herror⟩⟩ | ⟨-, validators, hrun⟩
  · rw [BeaconCall.next, hstored.2]
  · rw [BeaconCall.next, herror]
  · rw [BeaconCall.next, hrun]
    rfl

theorem currentEpoch_next : (call.next chain).currentEpoch =
    if call.isAdvance then chain.currentEpoch + 1 else chain.currentEpoch := by
  rcases call.next_cases chain with
    ⟨root, -, hadvance, hstored | ⟨error, herror⟩⟩ | ⟨-, validators, hrun⟩
  · rw [BeaconCall.next, hstored.2, hadvance]
    rfl
  · rw [BeaconCall.next, herror, hadvance]
    rfl
  · rw [BeaconCall.next, hrun]
    rfl

theorem rootsInOrder_rebuildEpoch (h : RootsInOrder chain.shardStateRoots) (epoch : UInt64) :
    RootsInOrder (chain.rebuildEpoch epoch).shardStateRoots := by
  have hroots : RootsInOrder
      ({ chain with currentEpoch := epoch }.replaceCommitteesForEpoch epoch).shardStateRoots := h
  exact hroots.initializeStateRootsForEpoch epoch

theorem rootsInOrder_next (h : RootsInOrder chain.shardStateRoots) :
    RootsInOrder (call.next chain).shardStateRoots := by
  rcases call.next_cases chain with ⟨root, -, -, hstored | ⟨error, herror⟩⟩ | ⟨-, validators, hrun⟩
  · rw [BeaconCall.next, hstored.2]
    exact h.insertStateRoot root.epoch root.shardId hstored.1
  · rwa [BeaconCall.next, herror]
  · rw [BeaconCall.next, hrun]
    exact rootsInOrder_rebuildEpoch { chain with validators } h _

/-- **What a call does to the map of roots**: it stores its own root, and where an epoch is built
anew, the shards without a root get the empty one. -/
theorem stateRootForShard_next (epoch : UInt64) (shardId : UInt16) :
    (call.next chain).stateRootForShard epoch shardId =
      (call.stored chain (epoch, shardId)).or ((chain.stateRootForShard epoch shardId).or
        (if call.request = none ∧ epoch = (call.next chain).currentEpoch ∧
          shardId < chain.config.shardCount then some emptyShardStateRoot else none)) := by
  rw [stateRootForShard_eq, stateRootForShard_eq, BeaconCall.stored]
  rcases call.next_cases chain with
    ⟨root, hrequest, -, hstored | ⟨error, herror⟩⟩ | ⟨hrequest, validators, hrun⟩
  · rw [BeaconCall.next, hstored.2, hrequest]
    show rootAt (insertStateRoot _ _ _ _) _ = _
    rw [rootAt_insertStateRoot]
    by_cases hkey : (epoch, shardId) = root.key
    · simp [hkey, ShardStateRoot.key]
    · refine (if_neg hkey).trans ?_
      simp [Ne.symm hkey]
  · rw [BeaconCall.next, herror, hrequest]
    simp
  · rw [BeaconCall.next, hrun, hrequest]
    exact (rootAt_initializeStateRootsForEpoch _ _ _).trans (by simp [replaceCommitteesForEpoch])

/-- The committees are in the order of epochs and shards. -/
def CommitteesInOrder : Prop :=
  chain.shardCommittees.Pairwise fun left right => (cmpEpochShard left.key right.key).isLE

/-- Building an epoch anew keeps the committees of the others. -/
theorem committeesForEpoch_rebuildEpoch_of_ne (h : chain.CommitteesInOrder) {epoch other : UInt64}
    (hne : other ≠ epoch) :
    (chain.rebuildEpoch epoch).committeesForEpoch other = chain.committeesForEpoch other := by
  have hbuilt : ∀ assignment ∈ buildCommitteeAssignments epoch chain.config.shardCount
      chain.activeValidators, assignment.epoch ≠ other := by
    intro assignment hmem
    rw [buildCommitteeAssignments_eq, List.mem_map] at hmem
    obtain ⟨shardId, -, rfl⟩ := hmem
    exact hne.symm
  have hfilter : ((chain.shardCommittees.filter fun assignment => assignment.epoch ≠ epoch) ++
      buildCommitteeAssignments epoch chain.config.shardCount chain.activeValidators).filter
        (fun assignment => assignment.epoch = other) = chain.committeesForEpoch other := by
    have hnil : (buildCommitteeAssignments epoch chain.config.shardCount
        chain.activeValidators).filter (fun assignment => assignment.epoch = other) = [] := by
      rw [List.filter_eq_nil_iff]
      simpa using hbuilt
    rw [List.filter_append, hnil, List.append_nil, List.filter_filter, committeesForEpoch]
    refine List.filter_congr fun assignment _ => ?_
    by_cases hepoch : assignment.epoch = other
    · simp [hepoch, hne]
    · simp [hepoch]
  have hsorted : (chain.committeesForEpoch other).Pairwise fun left right =>
      (cmpEpochShard left.key right.key).isLE := List.Pairwise.filter _ h
  rw [← hfilter] at hsorted
  exact (filter_sortByKey cmpEpochShard ShardCommitteeAssignment.key hsorted).trans hfilter

theorem committeesInOrder_rebuildEpoch (epoch : UInt64) :
    (chain.rebuildEpoch epoch).CommitteesInOrder :=
  pairwise_sortByKey cmpEpochShard ShardCommitteeAssignment.key _

theorem committeesInOrder_next (h : chain.CommitteesInOrder) :
    (call.next chain).CommitteesInOrder := by
  rcases call.next_cases chain with ⟨root, -, -, hstored | ⟨error, herror⟩⟩ | ⟨-, validators, hrun⟩
  · rw [BeaconCall.next, hstored.2]
    exact h
  · rwa [BeaconCall.next, herror]
  · rw [BeaconCall.next, hrun]
    exact committeesInOrder_rebuildEpoch _ _

/-- **A call keeps the committees** of every epoch but the one it leads to. -/
theorem committeesForEpoch_next (h : chain.CommitteesInOrder) {epoch : UInt64}
    (hepoch : epoch ≠ (call.next chain).currentEpoch) :
    (call.next chain).committeesForEpoch epoch = chain.committeesForEpoch epoch := by
  rw [currentEpoch_next] at hepoch
  rcases call.next_cases chain with ⟨root, -, -, hstored | ⟨error, herror⟩⟩ | ⟨-, validators, hrun⟩
  · rw [BeaconCall.next, hstored.2]
    rfl
  · rw [BeaconCall.next, herror]
  · rw [BeaconCall.next, hrun]
    exact committeesForEpoch_rebuildEpoch_of_ne { chain with validators } h hepoch

end BeaconChain

/-! ## Runs -/

/-- How often a run advances the epoch. -/
def advances (calls : List BeaconCall) : ℕ := calls.countP BeaconCall.isAdvance

theorem advances_concat (calls : List BeaconCall) (call : BeaconCall) :
    advances (calls ++ [call]) = advances calls + if call.isAdvance then 1 else 0 := by
  rw [advances, List.countP_append, List.countP_singleton]
  rfl

/-- The beacon chain after a run from a new one. -/
def beaconRun (config : ShardingConfig) (validators : List Validator) (calls : List BeaconCall) :
    BeaconChain :=
  calls.foldl BeaconCall.next (.new config validators)

section Runs

variable (config : ShardingConfig) (validators : List Validator)

theorem beaconRun_concat (calls : List BeaconCall) (call : BeaconCall) :
    beaconRun config validators (calls ++ [call]) =
      call.next (beaconRun config validators calls) :=
  List.foldl_concat _ _ _ _

theorem config_beaconRun (calls : List BeaconCall) :
    (beaconRun config validators calls).config = config := by
  induction calls using List.reverseRecOn with
  | nil => rfl
  | append_singleton calls call ih => rw [beaconRun_concat, BeaconChain.config_next, ih]

theorem rootsInOrder_beaconRun (calls : List BeaconCall) :
    RootsInOrder (beaconRun config validators calls).shardStateRoots := by
  induction calls using List.reverseRecOn with
  | nil =>
    refine BeaconChain.rootsInOrder_rebuildEpoch _ ⟨List.Pairwise.nil, fun root h => ?_⟩ 0
    exact absurd h List.not_mem_nil
  | append_singleton calls call ih =>
    rw [beaconRun_concat]
    exact BeaconChain.rootsInOrder_next _ call ih

theorem committeesInOrder_beaconRun (calls : List BeaconCall) :
    (beaconRun config validators calls).CommitteesInOrder := by
  induction calls using List.reverseRecOn with
  | nil => exact BeaconChain.committeesInOrder_rebuildEpoch _ 0
  | append_singleton calls call ih =>
    rw [beaconRun_concat]
    exact BeaconChain.committeesInOrder_next _ call ih

/-- The epoch counts the advances, as long as there are not too many of them. -/
theorem currentEpoch_beaconRun {calls : List BeaconCall} (h : advances calls < 2 ^ 64) :
    (beaconRun config validators calls).currentEpoch.toNat = advances calls := by
  induction calls using List.reverseRecOn with
  | nil => rfl
  | append_singleton calls call ih =>
    rw [advances_concat] at h ⊢
    rw [beaconRun_concat, BeaconChain.currentEpoch_next]
    split_ifs at h ⊢
    · rw [UInt64.toNat_add, ih (by omega)]
      exact Nat.mod_eq_of_lt h
    · exact ih h

theorem ite_or_ite {α : Type} (a : α) {p q r : Prop} [Decidable p] [Decidable q] [Decidable r]
    (h : p ∨ q ↔ r) :
    (if p then some a else none).or (if q then some a else none) =
      if r then some a else none := by
  by_cases hp : p
  · rw [if_pos hp, if_pos (h.mp (.inl hp))]
    rfl
  · rw [if_neg hp, Option.none_or]
    exact if_congr ((or_iff_right hp).symm.trans h) rfl rfl

/-- The epochs that have begun after a call: those of before, and the one that the call begins. -/
theorem le_currentEpoch_next_iff {calls : List BeaconCall} {call : BeaconCall}
    (h : advances (calls ++ [call]) < 2 ^ 64) (epoch : UInt64) :
    (epoch ≤ (beaconRun config validators calls).currentEpoch ∨ call.request = none ∧
        epoch = (call.next (beaconRun config validators calls)).currentEpoch) ↔
      epoch ≤ (call.next (beaconRun config validators calls)).currentEpoch := by
  have hepoch := currentEpoch_beaconRun config validators h
  rw [beaconRun_concat, advances_concat] at hepoch
  rw [advances_concat] at h
  have hlast : (beaconRun config validators calls).currentEpoch.toNat = advances calls :=
    currentEpoch_beaconRun config validators (by omega)
  rw [UInt64.le_iff_toNat_le, UInt64.le_iff_toNat_le, ← UInt64.toNat_inj, hepoch, hlast]
  cases hadvance : call.isAdvance with
  | false =>
    rw [if_neg Bool.false_ne_true]
    omega
  | true =>
    rw [if_pos rfl, eq_true (BeaconCall.request_of_isAdvance hadvance), true_and]
    omega

/-- **The roots after a run**: the last one stored, and before that the empty one as soon as the
epoch has begun. -/
theorem stateRootForShard_beaconRun {calls : List BeaconCall} (h : advances calls < 2 ^ 64)
    (epoch : UInt64) (shardId : UInt16) :
    (beaconRun config validators calls).stateRootForShard epoch shardId =
      (lastStored (.new config validators) calls (epoch, shardId)).or
        (if epoch ≤ (beaconRun config validators calls).currentEpoch ∧
          shardId < config.shardCount then some emptyShardStateRoot else none) := by
  induction calls using List.reverseRecOn with
  | nil =>
    rw [stateRootForShard_eq]
    refine (rootAt_initializeStateRootsForEpoch _ 0 _).trans ?_
    have hzero : epoch ≤ (beaconRun config validators []).currentEpoch ↔ epoch = 0 :=
      UInt64.le_zero_iff
    exact congrArg (Option.or none) (if_congr (and_congr_left' hzero.symm) rfl rfl)
  | append_singleton calls call ih =>
    have hlt : advances calls < 2 ^ 64 := by
      rw [advances_concat] at h
      omega
    -- what is due after the call was due before or falls due with it
    have hdue : (epoch ≤ (beaconRun config validators calls).currentEpoch ∧
          shardId < config.shardCount ∨ call.request = none ∧
          epoch = (call.next (beaconRun config validators calls)).currentEpoch ∧
            shardId < config.shardCount) ↔
        epoch ≤ (call.next (beaconRun config validators calls)).currentEpoch ∧
          shardId < config.shardCount := by
      rw [← and_assoc, ← or_and_right, le_currentEpoch_next_iff config validators h]
    rw [beaconRun_concat, BeaconChain.stateRootForShard_next, ih hlt, lastStored_concat,
      Option.or_assoc, Option.or_assoc, config_beaconRun, ite_or_ite _ hdue]
    rfl

/-- The committees of the past after a run are those that they were in every earlier state. -/
theorem committeesForEpoch_beaconRun {calls : List BeaconCall} (h : advances calls < 2 ^ 64)
    {earlier : List BeaconCall} (hearlier : earlier <+: calls) {epoch : UInt64}
    (hpast : epoch < (beaconRun config validators earlier).currentEpoch) :
    (beaconRun config validators calls).committeesForEpoch epoch =
      (beaconRun config validators earlier).committeesForEpoch epoch := by
  induction calls using List.reverseRecOn with
  | nil => rw [List.prefix_nil.mp hearlier]
  | append_singleton calls call ih =>
    rcases List.prefix_concat_iff.mp hearlier with rfl | hprefix
    · rfl
    · have hle : advances earlier ≤ advances (calls ++ [call]) := hearlier.sublist.countP_le
      have hepoch := currentEpoch_beaconRun config validators h
      have hepoch' := currentEpoch_beaconRun config validators (hle.trans_lt h)
      have hne : epoch ≠ (beaconRun config validators (calls ++ [call])).currentEpoch := by
        rintro rfl
        rw [UInt64.lt_iff_toNat_lt, hepoch, hepoch'] at hpast
        omega
      rw [advances_concat] at h
      rw [beaconRun_concat] at hne ⊢
      rw [BeaconChain.committeesForEpoch_next _ call (committeesInOrder_beaconRun _ _ calls) hne]
      exact ih (by omega) hprefix

end Runs

/-- **The history of the beacon chain refines a map.** After any run from a new beacon chain, the
root of a shard is the last one that was stored successfully, and if there is none, the empty one
from the beginning of the epoch on. A call that fails changes nothing, the table of roots is in
order, and the committees of the past never change. -/
theorem beacon_history_refines_map (config : ShardingConfig) (validators : List Validator)
    (calls : List BeaconCall) (hepochs : advances calls < 2 ^ 64) :
    (∀ epoch shardId, (beaconRun config validators calls).stateRootForShard epoch shardId =
      (lastStored (.new config validators) calls (epoch, shardId)).or
        (if epoch ≤ (beaconRun config validators calls).currentEpoch ∧
          shardId < config.shardCount then some emptyShardStateRoot else none)) ∧
    (∀ call : BeaconCall, (call.run.run (beaconRun config validators calls)).1 ≠ .ok () →
      call.next (beaconRun config validators calls) = beaconRun config validators calls) ∧
    RootsInOrder (beaconRun config validators calls).shardStateRoots ∧
    ∀ earlier, earlier <+: calls →
      ∀ epoch < (beaconRun config validators earlier).currentEpoch,
        (beaconRun config validators calls).committeesForEpoch epoch =
          (beaconRun config validators earlier).committeesForEpoch epoch := by
  refine ⟨stateRootForShard_beaconRun config validators hepochs, fun call hfailed => ?_,
    rootsInOrder_beaconRun config validators calls, fun earlier hearlier epoch hpast => ?_⟩
  · exact BeaconChain.next_eq_self_of_error _ call hfailed
  · exact committeesForEpoch_beaconRun config validators hepochs hearlier hpast

/-- A run that stores a root for a later epoch and then reaches that epoch. -/
def rootAheadCalls : List BeaconCall :=
  [.store 1 2 (List.replicate 32 7), .advance]

theorem rootAhead_history : advances rootAheadCalls < 2 ^ 64 ∧
    (beaconRun ⟨4⟩ [firstValidator] rootAheadCalls).stateRootForShard 1 2 =
      some (List.replicate 32 7) := by
  have hepochs : advances rootAheadCalls < 2 ^ 64 := by decide
  refine ⟨hepochs, ((beacon_history_refines_map ⟨4⟩ [firstValidator] rootAheadCalls hepochs).1
    1 2).trans ?_⟩
  rfl

end Prims
