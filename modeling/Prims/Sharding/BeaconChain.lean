import Prims.Consensus.Votes
import Prims.Lib.RoundRobin
import Prims.Lib.Runs
import Prims.Lib.Table
import Prims.Sharding.Digest

/-!
# The beacon chain

The beacon chain of `sharding/mod.rs` keeps the validators, and for every epoch the committees and
the state roots of the shards. Whenever the validators or the epoch change, the committees of the
current epoch are built anew: the active validators are put in the order of their scores and dealt
to the shards in turn.

A committee has addresses, not validators. An address that is registered twice is therefore dealt
twice, and both entries of the address are then in every committee that has it.

## Main definitions

* `BeaconChain`, `buildCommitteeAssignments`, `validatorsForShard`, `consensusForShard`
* `ReassignCall`: the calls that build the committees anew
* `BeaconChain.OneCommittee`: every active address is in one committee, and counts in one shard

## Main results

* `rebuilt_rebuildEpoch`: the committees of the current epoch are the ones just built
* `oneCommittee_iff_nodup`: active addresses are in one committee if and only if they are distinct
* `one_committee_along_runs_iff`: the same along whole runs, in terms of the calls
-/

namespace Prims

/-- `MIN_SHARD_COUNT` -/
def minShardCount : UInt16 := 1

/-- `SHARD_STATE_ROOT_LENGTH` -/
def shardStateRootLength : ℕ := 32

/-- `EMPTY_SHARD_STATE_ROOT` -/
def emptyShardStateRoot : Bytes := List.replicate shardStateRootLength 0

structure ShardingConfig where
  shardCount : UInt16
  deriving DecidableEq, Repr

inductive ShardingConfigError where
  | shardCountTooLow (minimum : UInt16)
  | shardCountMustBePowerOfTwo (provided : UInt16)
  deriving DecidableEq, Repr

/-- A power of two has one bit, which the number below it does not have. -/
def isPowerOfTwo (n : UInt16) : Bool := n ≠ 0 && n &&& (n - 1) = 0

def validateShardCount (shardCount : UInt16) : Except ShardingConfigError Unit := do
  ensure (minShardCount ≤ shardCount) (.shardCountTooLow minShardCount)
  ensure (isPowerOfTwo shardCount) (.shardCountMustBePowerOfTwo shardCount)

def ShardingConfig.new (shardCount : UInt16) : Except ShardingConfigError ShardingConfig := do
  validateShardCount shardCount
  return ⟨shardCount⟩

theorem pos_of_validateShardCount {shardCount : UInt16}
    (h : validateShardCount shardCount = .ok ()) : 0 < shardCount.toNat := by
  rw [validateShardCount, ensure_bind_eq_ok] at h
  exact UInt16.le_iff_toNat_le.mp h.1

structure ShardCommitteeAssignment where
  epoch : UInt64
  shardId : UInt16
  validatorAddresses : List Bytes
  deriving DecidableEq, Repr

structure ShardStateRoot where
  epoch : UInt64
  shardId : UInt16
  stateRoot : Bytes
  deriving DecidableEq, Repr

/-- The consensus of one shard in one epoch. -/
structure ShardConsensus where
  epoch : UInt64
  shardId : UInt16
  committee : List Validator
  collector : VoteCollector

inductive BeaconChainError where
  | invalidShardId (shardId shardCount : UInt16)
  | invalidStateRootLength (expected provided : ℕ)
  deriving DecidableEq, Repr

inductive ShardConsensusError where
  | beaconChain (error : BeaconChainError)
  | vote (error : VoteError)
  | missingCommitteeAssignment (epoch : UInt64) (shardId : UInt16)
  deriving DecidableEq, Repr

structure BeaconChain where
  config : ShardingConfig
  validators : List Validator
  currentEpoch : UInt64
  shardCommittees : List ShardCommitteeAssignment
  shardStateRoots : List ShardStateRoot
  deriving DecidableEq, Repr

/-! ## Orders -/

/-- Address, then stake, then the end of the lock. -/
def Validator.cmp (left right : Validator) : Ordering :=
  ((compare left.address right.address).then (compare left.stake right.stake)).then
    (compare left.lockedUntil right.lockedUntil)

def sortValidators (validators : List Validator) : List Validator :=
  validators.mergeSort fun left right => (left.cmp right).isLE

/-- Epoch, then shard. Committees and state roots are kept in this order. -/
def cmpEpochShard (left right : UInt64 × UInt16) : Ordering :=
  compareLex (compareOn Prod.fst) (compareOn Prod.snd) left right

def ShardCommitteeAssignment.key (assignment : ShardCommitteeAssignment) : UInt64 × UInt16 :=
  (assignment.epoch, assignment.shardId)

def ShardStateRoot.key (root : ShardStateRoot) : UInt64 × UInt16 := (root.epoch, root.shardId)

/-! ## Committees -/

/-- `0..shard_count` -/
def shardIds (shardCount : UInt16) : List UInt16 :=
  (List.range shardCount.toNat).map UInt16.ofNat

/-- The validators with stake, in the order of their scores in an epoch. -/
def shuffledValidators (epoch : UInt64) (validators : List Validator) : List Validator :=
  (validators.filter fun validator => 0 < validator.stake).mergeSort fun left right =>
    ((compare (assignmentScore epoch left.address) (assignmentScore epoch right.address)).then
      (compare left.address right.address)).isLE

/-- The shard count is not zero: with none, the source divides by zero. -/
def buildCommitteeAssignments (epoch : UInt64) (shardCount : UInt16) (validators : List Validator) :
    List ShardCommitteeAssignment :=
  let assignments := (shardIds shardCount).map fun shardId =>
    { epoch, shardId, validatorAddresses := [] : ShardCommitteeAssignment }
  dealInTurn shardCount.toNat
    (fun assignment validator =>
      { assignment with
        validatorAddresses := assignment.validatorAddresses ++ [validator.address] })
    assignments (shuffledValidators epoch validators)

def validateShardId (shardId shardCount : UInt16) : Except BeaconChainError Unit :=
  ensure (shardId < shardCount) (.invalidShardId shardId shardCount)

namespace BeaconChain

def activeValidators (chain : BeaconChain) : List Validator :=
  chain.validators.filter fun validator => 0 < validator.stake

def replaceCommitteesForEpoch (chain : BeaconChain) (epoch : UInt64) : BeaconChain :=
  let assignments :=
    buildCommitteeAssignments epoch chain.config.shardCount chain.activeValidators
  let retained := chain.shardCommittees.filter fun assignment => assignment.epoch ≠ epoch
  { chain with
    shardCommittees := (retained ++ assignments).mergeSort fun left right =>
      (cmpEpochShard left.key right.key).isLE }

def initializeStateRootsForEpoch (chain : BeaconChain) (epoch : UInt64) : BeaconChain :=
  let roots := (shardIds chain.config.shardCount).foldl (fun roots shardId =>
    if roots.any fun root => root.epoch = epoch && root.shardId = shardId then roots
    else roots ++ [⟨epoch, shardId, emptyShardStateRoot⟩]) chain.shardStateRoots
  { chain with
    shardStateRoots := roots.mergeSort fun left right => (cmpEpochShard left.key right.key).isLE }

def rebuildEpoch (chain : BeaconChain) (epoch : UInt64) : BeaconChain :=
  ({ chain with currentEpoch := epoch }.replaceCommitteesForEpoch
    epoch).initializeStateRootsForEpoch epoch

def new (config : ShardingConfig) (validators : List Validator) : BeaconChain :=
  { config
    validators := sortValidators validators
    currentEpoch := 0
    shardCommittees := []
    shardStateRoots := [] : BeaconChain }.rebuildEpoch 0

def registerValidator (chain : BeaconChain) (validator : Validator) : BeaconChain :=
  { chain with
    validators := sortValidators (chain.validators ++ [validator]) }.rebuildEpoch chain.currentEpoch

def replaceValidators (chain : BeaconChain) (validators : List Validator) : BeaconChain :=
  { chain with validators := sortValidators validators }.rebuildEpoch chain.currentEpoch

/-- The epoch is a word of 64 bits, which starts again from zero after the last one. -/
def advanceEpoch (chain : BeaconChain) : BeaconChain :=
  chain.rebuildEpoch (chain.currentEpoch + 1)

def committeesForEpoch (chain : BeaconChain) (epoch : UInt64) : List ShardCommitteeAssignment :=
  chain.shardCommittees.filter fun assignment => assignment.epoch = epoch

def committeeForShard (chain : BeaconChain) (epoch : UInt64) (shardId : UInt16) :
    Option ShardCommitteeAssignment :=
  chain.shardCommittees.find? fun assignment =>
    assignment.epoch = epoch && assignment.shardId = shardId

def validatorsForShard (chain : BeaconChain) (epoch : UInt64) (shardId : UInt16) :
    Except ShardConsensusError (List Validator) := do
  (validateShardId shardId chain.config.shardCount).mapError .beaconChain
  let assignment ← (chain.committeeForShard epoch shardId).okOr
    (.missingCommitteeAssignment epoch shardId)
  return sortValidators (chain.activeValidators.filter fun validator =>
    assignment.validatorAddresses.any fun address => address = validator.address)

def consensusForShard (chain : BeaconChain) (epoch : UInt64) (shardId : UInt16) :
    Except ShardConsensusError ShardConsensus := do
  let committee ← chain.validatorsForShard epoch shardId
  return { epoch, shardId, committee := sortValidators committee, collector := .new }

end BeaconChain

/-! ## The committees of the current epoch -/

theorem sortValidators_perm (validators : List Validator) :
    (sortValidators validators).Perm validators := List.mergeSort_perm _ _

theorem shuffledValidators_perm (epoch : UInt64) (validators : List Validator) :
    (shuffledValidators epoch validators).Perm
      (validators.filter fun validator => 0 < validator.stake) := List.mergeSort_perm _ _

/-- The addresses that are dealt to a shard. -/
def dealtAddresses (epoch : UInt64) (shardCount : UInt16) (validators : List Validator)
    (shardId : UInt16) : List Bytes :=
  (everyNth shardCount.toNat shardId.toNat (shuffledValidators epoch validators)).map
    Validator.address

theorem foldl_push_address (assignment : ShardCommitteeAssignment) (validators : List Validator) :
    validators.foldl (fun assignment validator =>
        { assignment with
          validatorAddresses := assignment.validatorAddresses ++ [validator.address] }) assignment =
      { assignment with
        validatorAddresses :=
          assignment.validatorAddresses ++ validators.map Validator.address } := by
  induction validators generalizing assignment with
  | nil => simp
  | cons validator validators ih =>
    rw [List.foldl_cons, ih]
    simp

theorem toNat_shardId {shardCount : UInt16} {i : ℕ} (h : i < shardCount.toNat) :
    (UInt16.ofNat i).toNat = i := by
  rw [UInt16.toNat_ofNat', Nat.mod_eq_of_lt (h.trans shardCount.toNat_lt)]

/-- **The committees**: every shard has the addresses that were dealt to it. -/
theorem buildCommitteeAssignments_eq (epoch : UInt64) (shardCount : UInt16)
    (validators : List Validator) :
    buildCommitteeAssignments epoch shardCount validators = (shardIds shardCount).map fun shardId =>
      ⟨epoch, shardId, dealtAddresses epoch shardCount validators shardId⟩ := by
  rw [buildCommitteeAssignments, dealInTurn_eq_mapIdx]
  apply List.ext_getElem?
  intro i
  simp only [List.getElem?_mapIdx, shardIds, List.getElem?_map]
  by_cases hi : i < shardCount.toNat
  · simp only [List.getElem?_range hi, Option.map_some, foldl_push_address, List.nil_append,
      dealtAddresses, toNat_shardId hi]
  · rw [List.getElem?_eq_none (by simpa using hi)]
    rfl

/-- The committees together have the addresses of the validators with stake. -/
theorem flatMap_buildCommitteeAssignments_perm (epoch : UInt64) {shardCount : UInt16}
    (hcount : 0 < shardCount.toNat) (validators : List Validator) :
    ((buildCommitteeAssignments epoch shardCount validators).flatMap
        ShardCommitteeAssignment.validatorAddresses).Perm
      ((validators.filter fun validator => 0 < validator.stake).map Validator.address) := by
  have hdealt : (buildCommitteeAssignments epoch shardCount validators).flatMap
      ShardCommitteeAssignment.validatorAddresses =
        ((List.range shardCount.toNat).flatMap fun j =>
          everyNth shardCount.toNat j (shuffledValidators epoch validators)).map
            Validator.address := by
    rw [buildCommitteeAssignments_eq, shardIds, List.flatMap_map, List.flatMap_map,
      List.map_flatMap]
    apply List.flatMap_congr
    intro j hj
    show dealtAddresses epoch shardCount validators (UInt16.ofNat j) = _
    rw [dealtAddresses, toNat_shardId (List.mem_range.mp hj)]
  rw [hdealt]
  exact ((flatMap_everyNth_perm hcount _).trans (shuffledValidators_perm epoch validators)).map _

theorem mem_shardIds {shardCount shardId : UInt16} :
    shardId ∈ shardIds shardCount ↔ shardId < shardCount := by
  rw [shardIds, List.mem_map, UInt16.lt_iff_toNat_lt]
  constructor
  · rintro ⟨i, hi, rfl⟩
    rw [toNat_shardId (List.mem_range.mp hi)]
    exact List.mem_range.mp hi
  · intro h
    exact ⟨shardId.toNat, List.mem_range.mpr h, UInt16.ofNat_toNat⟩

theorem cmpEpochShard_same_epoch (epoch : UInt64) (left right : UInt16) :
    cmpEpochShard (epoch, left) (epoch, right) = compare left right := by
  have hepoch : compare epoch epoch = .eq := Std.ReflCmp.compare_self
  show (compare epoch epoch).then (compare left right) = _
  rw [hepoch]
  rfl

theorem pairwise_shardIds (shardCount : UInt16) :
    (shardIds shardCount).Pairwise fun left right => (compare left right).isLE := by
  rw [shardIds, List.pairwise_map]
  refine List.pairwise_lt_range.imp_of_mem fun {i j} hi hj hlt => ?_
  rw [Std.isLE_compare, UInt16.le_iff_toNat_le, toNat_shardId (List.mem_range.mp hi),
    toNat_shardId (List.mem_range.mp hj)]
  exact hlt.le

instance : Std.TransCmp cmpEpochShard :=
  inferInstanceAs (Std.TransCmp (compareLex (compareOn Prod.fst) (compareOn Prod.snd)))

/-- New committees are in the order of the shards, so that sorting them in keeps them as they
are. -/
theorem filter_mergeSort_assignments (epoch : UInt64) (shardCount : UInt16)
    (validators : List Validator) {retained : List ShardCommitteeAssignment}
    (hretained : ∀ assignment ∈ retained, assignment.epoch ≠ epoch) :
    (((retained ++ buildCommitteeAssignments epoch shardCount validators).mergeSort
        fun left right => (cmpEpochShard left.key right.key).isLE).filter
          fun assignment => assignment.epoch = epoch) =
      buildCommitteeAssignments epoch shardCount validators := by
  have hepoch : ∀ assignment ∈ buildCommitteeAssignments epoch shardCount validators,
      assignment.epoch = epoch := by
    intro assignment h
    rw [buildCommitteeAssignments_eq, List.mem_map] at h
    obtain ⟨shardId, -, rfl⟩ := h
    rfl
  have hsorted : (buildCommitteeAssignments epoch shardCount validators).Pairwise
      fun left right => (cmpEpochShard left.key right.key).isLE := by
    rw [buildCommitteeAssignments_eq, List.pairwise_map]
    refine (pairwise_shardIds shardCount).imp fun {left right} h => ?_
    show (cmpEpochShard (epoch, left) (epoch, right)).isLE
    rwa [cmpEpochShard_same_epoch]
  generalize buildCommitteeAssignments epoch shardCount validators = built at *
  have hfilter : (retained ++ built).filter (fun assignment => assignment.epoch = epoch) =
      built := by
    rw [List.filter_append, List.filter_eq_nil_iff.mpr (by simpa using hretained),
      List.nil_append, List.filter_eq_self.mpr (by simpa using hepoch)]
  refine (filter_sortByKey cmpEpochShard ShardCommitteeAssignment.key ?_).trans hfilter
  rw [hfilter]
  exact hsorted

namespace BeaconChain

/-- The committees of the current epoch are those of the active validators. -/
def Rebuilt (chain : BeaconChain) : Prop :=
  chain.committeesForEpoch chain.currentEpoch =
    buildCommitteeAssignments chain.currentEpoch chain.config.shardCount chain.activeValidators

/-- **Building the committees anew** leaves the new ones for the epoch. -/
theorem rebuilt_rebuildEpoch (chain : BeaconChain) (epoch : UInt64) :
    (chain.rebuildEpoch epoch).Rebuilt := by
  refine filter_mergeSort_assignments epoch _ _ fun assignment h => ?_
  simpa using (List.mem_filter.mp h).2

variable {chain : BeaconChain}

theorem filter_activeValidators (chain : BeaconChain) :
    chain.activeValidators.filter (fun validator => 0 < validator.stake) =
      chain.activeValidators := by
  rw [activeValidators, List.filter_filter]
  simp

theorem flatMap_committees_perm (h : chain.Rebuilt) (hcount : 0 < chain.config.shardCount.toNat) :
    ((chain.committeesForEpoch chain.currentEpoch).flatMap
        ShardCommitteeAssignment.validatorAddresses).Perm
      (chain.activeValidators.map Validator.address) := by
  have hperm := flatMap_buildCommitteeAssignments_perm chain.currentEpoch hcount
    chain.activeValidators
  rw [filter_activeValidators] at hperm
  rw [h]
  exact hperm

theorem committeeForShard_eq (h : chain.Rebuilt) {shardId : UInt16}
    (hshard : shardId < chain.config.shardCount) :
    chain.committeeForShard chain.currentEpoch shardId =
      some ⟨chain.currentEpoch, shardId, dealtAddresses chain.currentEpoch
        chain.config.shardCount chain.activeValidators shardId⟩ := by
  have hfind : chain.committeeForShard chain.currentEpoch shardId =
      (chain.committeesForEpoch chain.currentEpoch).find?
        fun assignment => assignment.shardId = shardId := by
    rw [committeesForEpoch, List.find?_filter, committeeForShard]
    congr
    funext assignment
    simp
  have hid : (shardIds chain.config.shardCount).find? (fun id => id = shardId) = some shardId := by
    cases hf : (shardIds chain.config.shardCount).find? fun id => id = shardId with
    | none =>
      have hne := List.find?_eq_none.mp hf shardId (mem_shardIds.mpr hshard)
      simp at hne
    | some id =>
      have heq := List.find?_some hf
      simp only [decide_eq_true_eq] at heq
      rw [heq]
  rw [hfind, h, buildCommitteeAssignments_eq, List.find?_map]
  show ((shardIds chain.config.shardCount).find? fun id => id = shardId).map _ = _
  rw [hid]
  rfl

/-- The consensus of a shard in the current epoch: the active validators whose addresses were dealt
to it. -/
def currentConsensus (chain : BeaconChain) (shardId : UInt16) : ShardConsensus where
  epoch := chain.currentEpoch
  shardId := shardId
  committee := sortValidators (sortValidators (chain.activeValidators.filter fun validator =>
    (dealtAddresses chain.currentEpoch chain.config.shardCount chain.activeValidators shardId).any
      fun address => address = validator.address))
  collector := .new

theorem consensusForShard_eq (h : chain.Rebuilt) {shardId : UInt16}
    (hshard : shardId < chain.config.shardCount) :
    chain.consensusForShard chain.currentEpoch shardId = .ok (chain.currentConsensus shardId) := by
  rw [consensusForShard, validatorsForShard, validateShardId, ensure, if_pos hshard,
    committeeForShard_eq h hshard]
  rfl

/-- When no active address is there twice, a shard has exactly the addresses that were dealt to
it. -/
theorem currentConsensus_perm (hdistinct : (chain.activeValidators.map Validator.address).Nodup)
    (shardId : UInt16) :
    ((chain.currentConsensus shardId).committee.map Validator.address).Perm
      (dealtAddresses chain.currentEpoch chain.config.shardCount chain.activeValidators
        shardId) := by
  have hdealt : (dealtAddresses chain.currentEpoch chain.config.shardCount chain.activeValidators
      shardId).Sublist ((shuffledValidators chain.currentEpoch chain.activeValidators).map
        Validator.address) := (everyNth_sublist _ _ _).map _
  have hshuffled := (shuffledValidators_perm chain.currentEpoch chain.activeValidators).map
    Validator.address
  have hactive : ((chain.activeValidators.filter fun validator => 0 < validator.stake).map
      Validator.address).Sublist (chain.activeValidators.map Validator.address) :=
    List.filter_sublist.map _
  have hcommittee : ((chain.currentConsensus shardId).committee.map Validator.address).Perm
      ((chain.activeValidators.map Validator.address).filter fun address =>
        address ∈ dealtAddresses chain.currentEpoch chain.config.shardCount
          chain.activeValidators shardId) := by
    refine (((sortValidators_perm _).trans (sortValidators_perm _)).map _).trans ?_
    rw [List.filter_map]
    refine .of_eq (congrArg _ (List.filter_congr fun validator _ => ?_))
    rw [Bool.eq_iff_iff, List.any_eq_true, Function.comp_apply, decide_eq_true_eq]
    simp
  have hnodup : (dealtAddresses chain.currentEpoch chain.config.shardCount chain.activeValidators
      shardId).Nodup := hdealt.nodup (hshuffled.nodup_iff.mpr (hactive.nodup hdistinct))
  refine hcommittee.trans ?_
  -- neither list has a repetition, so it is enough that they have the same addresses
  rw [List.perm_ext_iff_of_nodup (hdistinct.filter _) hnodup]
  intro address
  rw [List.mem_filter, decide_eq_true_eq]
  exact ⟨And.right, fun h => ⟨hactive.subset (hshuffled.subset (hdealt.subset h)), h⟩⟩

/-! ## One committee for every address -/

/-- **One validator, one committee**: every active address is once in the committees of the current
epoch, and once in the committees of all shards together. -/
structure OneCommittee (chain : BeaconChain) : Prop where
  assigned : ∀ validator ∈ chain.activeValidators,
    ((chain.committeesForEpoch chain.currentEpoch).flatMap
      ShardCommitteeAssignment.validatorAddresses).count validator.address = 1
  counted : ∃ consensuses, (shardIds chain.config.shardCount).mapM
      (chain.consensusForShard chain.currentEpoch) = .ok consensuses ∧
    ∀ validator ∈ chain.activeValidators,
      ((consensuses.flatMap ShardConsensus.committee).map Validator.address).count
        validator.address = 1

/-- **One committee for every address** means that no active address is there twice. -/
theorem oneCommittee_iff_nodup (h : chain.Rebuilt) (hcount : 0 < chain.config.shardCount.toNat) :
    chain.OneCommittee ↔ (chain.activeValidators.map Validator.address).Nodup := by
  have hperm := flatMap_committees_perm h hcount
  constructor
  · rintro ⟨hassigned, -⟩
    rw [List.nodup_iff_count_eq_one]
    intro address haddress
    obtain ⟨validator, hvalidator, rfl⟩ := List.mem_map.mp haddress
    rw [← hperm.count_eq]
    exact hassigned validator hvalidator
  · intro hdistinct
    have hone : ∀ {l : List Bytes}, l.Perm (chain.activeValidators.map Validator.address) →
        ∀ validator ∈ chain.activeValidators, l.count validator.address = 1 := by
      intro l hl validator hvalidator
      rw [hl.count_eq]
      exact List.count_eq_one_of_mem hdistinct (List.mem_map_of_mem hvalidator)
    have hconsensuses := mapM_eq_ok_map (l := shardIds chain.config.shardCount)
      fun shardId hmem => consensusForShard_eq h (mem_shardIds.mp hmem)
    refine ⟨hone hperm, _, hconsensuses, hone ?_⟩
    refine List.Perm.trans ?_ hperm
    rw [h, buildCommitteeAssignments_eq, List.flatMap_map, List.flatMap_map, List.map_flatMap]
    exact List.Perm.flatMap_left _ fun shardId _ => currentConsensus_perm hdistinct shardId

end BeaconChain

/-! ## Runs -/

/-- The calls that build the committees anew. The validators of a replacement have distinct
addresses. -/
inductive ReassignCall where
  | register (validator : Validator)
  | replace (validators : List Validator) (hdistinct : (validators.map Validator.address).Nodup)
  | advance

namespace BeaconChain

def step (chain : BeaconChain) : ReassignCall → BeaconChain
  | .register validator => chain.registerValidator validator
  | .replace validators _ => chain.replaceValidators validators
  | .advance => chain.advanceEpoch

/-- A call does not register an address that is active already. -/
def Fresh (chain : BeaconChain) : ReassignCall → Prop
  | .register validator =>
    validator.stake = 0 ∨ validator.address ∉ chain.activeValidators.map Validator.address
  | .replace _ _ => True
  | .advance => True

/-- Every call of a run is fresh in the state in which it is made. -/
def FreshRun : BeaconChain → List ReassignCall → Prop
  | _, [] => True
  | chain, call :: calls => chain.Fresh call ∧ FreshRun (chain.step call) calls

variable {chain : BeaconChain}

theorem rebuilt_step (chain : BeaconChain) (call : ReassignCall) : (chain.step call).Rebuilt := by
  cases call <;> exact rebuilt_rebuildEpoch _ _

theorem config_step (chain : BeaconChain) (call : ReassignCall) :
    (chain.step call).config = chain.config := by
  cases call <;> rfl

theorem activeValidators_registerValidator_perm (chain : BeaconChain) (validator : Validator) :
    (chain.registerValidator validator).activeValidators.Perm
      (chain.activeValidators ++ if 0 < validator.stake then [validator] else []) := by
  refine ((sortValidators_perm (chain.validators ++ [validator])).filter _).trans ?_
  rw [List.filter_append, List.filter_singleton, Bool.cond_eq_ite]
  simp [activeValidators]

/-- A sorted list of distinct addresses has distinct active addresses. -/
theorem nodup_filter_sortValidators {validators : List Validator}
    (hdistinct : (validators.map Validator.address).Nodup) :
    (((sortValidators validators).filter fun validator => 0 < validator.stake).map
      Validator.address).Nodup := by
  refine (List.filter_sublist.map _).nodup ?_
  exact ((sortValidators_perm validators).map _).nodup_iff.mpr hdistinct

/-- **A call keeps the active addresses distinct** if and only if it is fresh. -/
theorem nodup_step_iff (hdistinct : (chain.activeValidators.map Validator.address).Nodup)
    (call : ReassignCall) :
    ((chain.step call).activeValidators.map Validator.address).Nodup ↔ chain.Fresh call := by
  cases call with
  | register validator =>
    have hperm := (activeValidators_registerValidator_perm chain validator).map Validator.address
    show ((chain.registerValidator validator).activeValidators.map Validator.address).Nodup ↔ _
    rw [hperm.nodup_iff, List.map_append]
    by_cases hstake : validator.stake = 0
    · have hnil : (if 0 < validator.stake then [validator] else []) = [] := by
        rw [hstake]
        rfl
      rw [hnil, List.map_nil, List.append_nil]
      exact iff_of_true hdistinct (.inl hstake)
    · have hone : (if 0 < validator.stake then [validator] else []) = [validator] :=
        if_pos (UInt64.pos_iff_ne_zero.mpr hstake)
      rw [hone, List.map_singleton, List.nodup_append_comm, List.singleton_append, List.nodup_cons]
      exact ⟨fun h => .inr h.1, fun h => ⟨h.resolve_left hstake, hdistinct⟩⟩
  | replace validators hvalidators =>
    exact iff_of_true (nodup_filter_sortValidators hvalidators) trivial
  | advance => exact iff_of_true hdistinct trivial

theorem freshRun_iff_everyCall (chain : BeaconChain) (calls : List ReassignCall) :
    chain.FreshRun calls ↔ EveryCall step Fresh chain calls := by
  induction calls generalizing chain with
  | nil => exact Iff.rfl
  | cons call calls ih => exact and_congr_right fun _ => ih (chain.step call)

/-- One committee along every run from a state in which it holds, in terms of the calls. -/
theorem oneCommittee_run_iff (h : chain.Rebuilt) (hcount : 0 < chain.config.shardCount.toNat)
    (hdistinct : (chain.activeValidators.map Validator.address).Nodup)
    (calls : List ReassignCall) :
    (∀ earlier, earlier <+: calls → (earlier.foldl step chain).OneCommittee) ↔
      chain.FreshRun calls := by
  have hinvariant : ∀ (chain : BeaconChain) call,
      chain.Rebuilt ∧ 0 < chain.config.shardCount.toNat →
        (chain.step call).Rebuilt ∧ 0 < (chain.step call).config.shardCount.toNat := by
    rintro chain call ⟨-, hcount⟩
    rw [config_step]
    exact ⟨rebuilt_step chain call, hcount⟩
  have hstep : ∀ (chain : BeaconChain) call,
      chain.Rebuilt ∧ 0 < chain.config.shardCount.toNat → chain.OneCommittee →
        ((chain.step call).OneCommittee ↔ chain.Fresh call) := by
    rintro chain call ⟨h, hcount⟩ hone
    obtain ⟨h', hcount'⟩ := hinvariant chain call ⟨h, hcount⟩
    rw [oneCommittee_iff_nodup h' hcount']
    exact nodup_step_iff ((oneCommittee_iff_nodup h hcount).mp hone) call
  rw [freshRun_iff_everyCall]
  exact forall_prefix_iff_everyCall hinvariant hstep ⟨h, hcount⟩
    ((oneCommittee_iff_nodup h hcount).mpr hdistinct) calls

end BeaconChain

/-- **One validator, one committee** in every state of a run from a new beacon chain, if and only if
no call of the run registers, with stake, an address that is active already. -/
theorem one_committee_along_runs_iff (config : ShardingConfig)
    (hconfig : validateShardCount config.shardCount = .ok ()) (validators : List Validator)
    (hdistinct : (validators.map Validator.address).Nodup) (calls : List ReassignCall) :
    (∀ earlier, earlier <+: calls →
        (earlier.foldl BeaconChain.step (.new config validators)).OneCommittee) ↔
      (BeaconChain.new config validators).FreshRun calls := by
  have hcount := pos_of_validateShardCount hconfig
  have hrebuilt : (BeaconChain.new config validators).Rebuilt :=
    BeaconChain.rebuilt_rebuildEpoch _ _
  exact BeaconChain.oneCommittee_run_iff hrebuilt hcount
    (BeaconChain.nodup_filter_sortValidators hdistinct) calls

def firstValidator : Validator where
  address := List.replicate 32 1
  stake := 10
  lockedUntil := 1710000000

def secondValidator : Validator where
  address := List.replicate 32 2
  stake := 20
  lockedUntil := 1710000000

theorem activeValidators_new_firstValidator :
    (BeaconChain.new ⟨4⟩ [firstValidator]).activeValidators = [firstValidator] := by
  show (sortValidators [firstValidator]).filter _ = _
  rw [sortValidators, List.mergeSort_singleton]
  decide

theorem sampleRun_one_committee :
    validateShardCount 4 = .ok () ∧ ([firstValidator].map Validator.address).Nodup ∧
      ∀ earlier, earlier <+: [ReassignCall.register secondValidator, .advance] →
        (earlier.foldl BeaconChain.step (.new ⟨4⟩ [firstValidator])).OneCommittee := by
  refine ⟨by decide, by decide, (one_committee_along_runs_iff ⟨4⟩ (by decide) [firstValidator]
    (by decide) [.register secondValidator, .advance]).mpr ⟨.inr ?_, trivial, trivial⟩⟩
  rw [activeValidators_new_firstValidator]
  decide

/-- **Two committees for one address**: a validator that registers again with a new stake is dealt
to two shards. -/
theorem reregistered_two_committees :
    validateShardCount 4 = .ok () ∧ ([firstValidator].map Validator.address).Nodup ∧
      ¬ ((BeaconChain.new ⟨4⟩ [firstValidator]).registerValidator
        { firstValidator with stake := 20 }).OneCommittee := by
  refine ⟨by decide, by decide, fun h => ?_⟩
  have hactive := activeValidators_new_firstValidator
  have hdistinct : ((BeaconChain.new ⟨4⟩ [firstValidator]).activeValidators.map
      Validator.address).Nodup := by
    rw [hactive]
    decide
  have hfresh := (BeaconChain.nodup_step_iff hdistinct
    (.register { firstValidator with stake := 20 })).mp
    ((BeaconChain.oneCommittee_iff_nodup (BeaconChain.rebuilt_rebuildEpoch _ _) (by decide)).mp h)
  rcases hfresh with hstake | haddress
  · exact absurd hstake (by decide)
  · rw [hactive] at haddress
    exact haddress (by decide)

end Prims
