import Prims.Lib.Runs
import Prims.Sharding.StateRoots

/-!
# The shard count and governance

The shard count of the configuration is read by every operation of the beacon chain, while the
committees and the state roots of the current epoch are built only when the validators or the epoch
change. A governance update changes the count alone. Until the next time the epoch is built, the
committees are those of the old count: a larger count has shards without a committee, and a smaller
one leaves the validators of the higher shards without a shard.

## Main definitions

* `ShardingConfig.applyGovernanceUpdate`
* `BeaconChain.Covered`: every shard of the current epoch has one committee and one root, and every
  active address is in a committee of a shard
* `BeaconChain.DealtTo m`: the current epoch was last built for `m` shards
* `BeaconChain.Fits n`: a count that the committees in force serve

## Main results

* `BeaconChain.covered_iff`: coverage in terms of the count the epoch was built for
* `BeaconChain.fits_iff_length_le`: with distinct addresses, a smaller count has to leave room for
  all validators
* `shard_coverage_along_runs_iff`: coverage along runs in terms of the governance updates
-/

namespace Prims

def ShardingConfig.applyGovernanceUpdate (config : ShardingConfig) (newShardCount : UInt16) :
    Except ShardingConfigError ShardingConfig := do
  validateShardCount newShardCount
  return { config with shardCount := newShardCount }

/-! ## Coverage -/

namespace BeaconChain

/-- **Shard coverage** in the current epoch: one committee and one state root for every shard, and
every active address is in the committee of a shard. The committee of a shard is then never
missing. -/
structure Covered (chain : BeaconChain) : Prop where
  committees : ∀ shardId < chain.config.shardCount,
    (chain.committeesForEpoch chain.currentEpoch).countP (fun a => a.shardId = shardId) = 1
  roots : ∀ shardId < chain.config.shardCount,
    chain.shardStateRoots.countP
      (fun root => root.epoch = chain.currentEpoch && root.shardId = shardId) = 1
  assigned : ∀ validator ∈ chain.activeValidators,
    ∃ assignment ∈ chain.committeesForEpoch chain.currentEpoch,
      assignment.shardId < chain.config.shardCount ∧
        validator.address ∈ assignment.validatorAddresses
  served : ∀ shardId < chain.config.shardCount, ∀ epoch id,
    chain.validatorsForShard chain.currentEpoch shardId ≠
      .error (.missingCommitteeAssignment epoch id)

/-- The committees of the current epoch were last built for `m` shards. -/
structure DealtTo (m : UInt16) (chain : BeaconChain) : Prop where
  pos : 0 < m.toNat
  committees : chain.committeesForEpoch chain.currentEpoch =
    buildCommitteeAssignments chain.currentEpoch m chain.activeValidators
  inOrder : RootsInOrder chain.shardStateRoots
  roots : ∀ shardId < m,
    (chain.currentEpoch, shardId) ∈ chain.shardStateRoots.map ShardStateRoot.key

variable {chain : BeaconChain} {m : UInt16}

/-- Building an epoch leaves it built for the shard count of the configuration. -/
theorem dealtTo_rebuildEpoch (chain : BeaconChain) (hcount : 0 < chain.config.shardCount.toNat)
    (h : RootsInOrder chain.shardStateRoots) (epoch : UInt64) :
    (chain.rebuildEpoch epoch).DealtTo chain.config.shardCount where
  pos := hcount
  committees := rebuilt_rebuildEpoch chain epoch
  inOrder := rootsInOrder_rebuildEpoch chain h epoch
  roots shardId hshard := by
    have hroot : rootAt (chain.rebuildEpoch epoch).shardStateRoots (epoch, shardId) =
        (rootAt chain.shardStateRoots (epoch, shardId)).or (some emptyShardStateRoot) :=
      (rootAt_initializeStateRootsForEpoch _ epoch _).trans
        (congrArg (Option.or _) (if_pos ⟨rfl, hshard⟩))
    have hsome : (rootAt (chain.rebuildEpoch epoch).shardStateRoots (epoch, shardId)).isSome := by
      rw [hroot, Option.isSome_or]
      exact Bool.or_true _
    rw [rootAt, Option.isSome_map, List.find?_isSome] at hsome
    obtain ⟨root, hmem, hkey⟩ := hsome
    exact List.mem_map.mpr ⟨root, hmem, of_decide_eq_true hkey⟩

theorem dealtTo_new {config : ShardingConfig} (hcount : 0 < config.shardCount.toNat)
    (validators : List Validator) :
    (BeaconChain.new config validators).DealtTo config.shardCount := by
  refine dealtTo_rebuildEpoch ⟨config, _, 0, [], []⟩ hcount ⟨List.Pairwise.nil, ?_⟩ 0
  exact fun root h => absurd h List.not_mem_nil

theorem nodup_shardIds (shardCount : UInt16) : (shardIds shardCount).Nodup := by
  refine List.Nodup.map_on (fun i hi j hj hij => ?_) List.nodup_range
  rw [← toNat_shardId (List.mem_range.mp hi), hij, toNat_shardId (List.mem_range.mp hj)]

/-- An epoch built for `m` shards has one committee for each of them and none for another. -/
theorem countP_committees (h : chain.DealtTo m) (shardId : UInt16) :
    (chain.committeesForEpoch chain.currentEpoch).countP (fun a => a.shardId = shardId) =
      if shardId < m then 1 else 0 := by
  rw [h.committees, buildCommitteeAssignments_eq, List.countP_map]
  have hcount : (shardIds m).countP (fun id => id = shardId) = (shardIds m).count shardId := by
    rw [List.count]
    exact List.countP_congr fun id _ => by simp
  refine hcount.trans ?_
  split_ifs with hlt
  · exact List.count_eq_one_of_mem (nodup_shardIds m) (mem_shardIds.mpr hlt)
  · exact List.count_eq_zero.mpr (hlt ∘ mem_shardIds.mp)

theorem countP_roots (h : chain.DealtTo m) {shardId : UInt16} (hshard : shardId < m) :
    chain.shardStateRoots.countP
      (fun root => root.epoch = chain.currentEpoch && root.shardId = shardId) = 1 := by
  have hcount : (chain.shardStateRoots.map ShardStateRoot.key).count (chain.currentEpoch, shardId) =
      1 := List.count_eq_one_of_mem h.inOrder.nodup (h.roots shardId hshard)
  rw [← hcount, List.count, List.countP_map, eq_key]
  exact List.countP_congr fun root _ => by simp

/-- **A count fits** the committees in force: there is a committee for every shard, and every active
address has a place in the order of the epoch that was dealt to one of the shards. -/
def Fits (chain : BeaconChain) (shardCount : UInt16) : Prop :=
  shardCount.toNat ≤ (chain.committeesForEpoch chain.currentEpoch).length ∧
    ∀ validator ∈ chain.activeValidators, ∃ place,
      (shuffledValidators chain.currentEpoch chain.activeValidators)[place]?.map Validator.address =
          some validator.address ∧
        place % (chain.committeesForEpoch chain.currentEpoch).length < shardCount.toNat

theorem length_committees (h : chain.DealtTo m) :
    (chain.committeesForEpoch chain.currentEpoch).length = m.toNat := by
  rw [h.committees, buildCommitteeAssignments_eq, List.length_map, shardIds, List.length_map,
    List.length_range]

/-- An address is in the committee of a shard below the count when one of its places is. -/
theorem assigned_iff (h : chain.DealtTo m) {shardCount : UInt16}
    (hle : shardCount.toNat ≤ m.toNat) (address : Bytes) :
    (∃ assignment ∈ chain.committeesForEpoch chain.currentEpoch,
        assignment.shardId < shardCount ∧ address ∈ assignment.validatorAddresses) ↔
      ∃ place, (shuffledValidators chain.currentEpoch
          chain.activeValidators)[place]?.map Validator.address = some address ∧
        place % m.toNat < shardCount.toNat := by
  rw [h.committees, buildCommitteeAssignments_eq]
  constructor
  · rintro ⟨assignment, hmem, hlt, haddress⟩
    obtain ⟨shardId, -, rfl⟩ := List.mem_map.mp hmem
    obtain ⟨validator, hvalidator, rfl⟩ := List.mem_map.mp haddress
    obtain ⟨place, hplace, hshard⟩ := mem_everyNth.mp hvalidator
    refine ⟨place, by rw [hplace, Option.map_some], ?_⟩
    rw [hshard]
    exact UInt16.lt_iff_toNat_lt.mp hlt
  · rintro ⟨place, hplace, hlt⟩
    obtain ⟨validator, hvalidator, rfl⟩ := Option.map_eq_some_iff.mp hplace
    have hid : (UInt16.ofNat (place % m.toNat)).toNat = place % m.toNat :=
      toNat_shardId (Nat.mod_lt _ h.pos)
    refine ⟨_, List.mem_map.mpr ⟨UInt16.ofNat (place % m.toNat), ?_, rfl⟩, ?_, ?_⟩
    · rw [mem_shardIds, UInt16.lt_iff_toNat_lt, hid]
      exact hlt.trans_le hle
    · rwa [UInt16.lt_iff_toNat_lt, hid]
    · refine List.mem_map_of_mem (mem_everyNth.mpr ⟨place, hvalidator, ?_⟩)
      exact hid.symm

/-- Where there is a committee for a shard, it is found. -/
theorem committeeForShard_isSome {shardId : UInt16}
    (h : (chain.committeesForEpoch chain.currentEpoch).countP (fun a => a.shardId = shardId) = 1) :
    (chain.committeeForShard chain.currentEpoch shardId).isSome := by
  have hpos : 0 < (chain.committeesForEpoch chain.currentEpoch).countP
      (fun a => a.shardId = shardId) := h ▸ Nat.one_pos
  obtain ⟨assignment, hmem, hshard⟩ := List.countP_pos_iff.mp hpos
  obtain ⟨hin, hepoch⟩ := List.mem_filter.mp hmem
  exact List.find?_isSome.mpr ⟨assignment, hin, Bool.and_eq_true_iff.mpr ⟨hepoch, hshard⟩⟩

theorem validatorsForShard_ne_missing {shardId : UInt16}
    (h : (chain.committeesForEpoch chain.currentEpoch).countP (fun a => a.shardId = shardId) = 1)
    (epoch : UInt64) (id : UInt16) :
    chain.validatorsForShard chain.currentEpoch shardId ≠
      .error (.missingCommitteeAssignment epoch id) := by
  obtain ⟨assignment, hassignment⟩ := Option.isSome_iff_exists.mp (committeeForShard_isSome h)
  rw [validatorsForShard, validateShardId, ensure, hassignment]
  intro hmissing
  split_ifs at hmissing <;> cases hmissing

/-- **Coverage** means that the count fits the committees in force. -/
theorem covered_iff (h : chain.DealtTo m) :
    chain.Covered ↔ chain.Fits chain.config.shardCount := by
  rw [Fits, length_committees h]
  constructor
  · intro hcovered
    have hle : chain.config.shardCount.toNat ≤ m.toNat := by
      by_contra hlt
      have hone := hcovered.committees m (UInt16.lt_iff_toNat_lt.mpr (not_le.mp hlt))
      rw [countP_committees h, if_neg (UInt16.lt_irrefl m)] at hone
      exact Nat.zero_ne_one hone
    refine ⟨hle, fun validator hvalidator => ?_⟩
    exact (assigned_iff h hle validator.address).mp (hcovered.assigned validator hvalidator)
  · rintro ⟨hle, hplaces⟩
    have hshard : ∀ shardId < chain.config.shardCount, shardId < m := fun shardId hlt =>
      UInt16.lt_of_lt_of_le hlt (UInt16.le_iff_toNat_le.mpr hle)
    have hcommittees : ∀ shardId < chain.config.shardCount,
        (chain.committeesForEpoch chain.currentEpoch).countP (fun a => a.shardId = shardId) = 1 :=
      fun shardId hlt => (countP_committees h shardId).trans (if_pos (hshard shardId hlt))
    refine ⟨hcommittees, fun shardId hlt => countP_roots h (hshard shardId hlt),
      fun validator hvalidator => ?_, fun shardId hlt => ?_⟩
    · exact (assigned_iff h hle validator.address).mpr (hplaces validator hvalidator)
    · exact validatorsForShard_ne_missing (hcommittees shardId hlt)

/-- Every active validator has a place in the order of the epoch. -/
theorem exists_place {validator : Validator} (h : validator ∈ chain.activeValidators)
    (epoch : UInt64) :
    ∃ place < chain.activeValidators.length,
      (shuffledValidators epoch chain.activeValidators)[place]? = some validator := by
  have hperm := shuffledValidators_perm epoch chain.activeValidators
  rw [filter_activeValidators] at hperm
  obtain ⟨place, hlt, hplace⟩ := List.getElem_of_mem (hperm.mem_iff.mpr h)
  refine ⟨place, hperm.length_eq ▸ hlt, ?_⟩
  rw [List.getElem?_eq_getElem hlt, hplace]

/-- The count that the epoch was built for fits. -/
theorem DealtTo.fits (h : chain.DealtTo m) : chain.Fits m := by
  rw [Fits, length_committees h]
  refine ⟨le_rfl, fun validator hvalidator => ?_⟩
  obtain ⟨place, -, hplace⟩ := exists_place hvalidator chain.currentEpoch
  exact ⟨place, by rw [hplace, Option.map_some], Nat.mod_lt _ h.pos⟩

/-- **Distinct addresses**: a smaller count fits when there is a shard for every active validator of
its own. -/
theorem fits_iff_length_le (h : chain.DealtTo m)
    (hdistinct : (chain.activeValidators.map Validator.address).Nodup) (shardCount : UInt16) :
    chain.Fits shardCount ↔ shardCount = m ∨
      shardCount.toNat < m.toNat ∧ chain.activeValidators.length ≤ shardCount.toNat := by
  have hperm := shuffledValidators_perm chain.currentEpoch chain.activeValidators
  rw [filter_activeValidators] at hperm
  constructor
  · intro hfits
    rw [Fits, length_committees h] at hfits
    rcases hfits.1.eq_or_lt with heq | hlt
    · exact .inl (UInt16.toNat_inj.mp heq)
    · refine .inr ⟨hlt, ?_⟩
      by_contra hlong
      -- the validator at the place `shardCount` is dealt to the shard of that number
      rw [not_le, ← hperm.length_eq] at hlong
      have hmem := hperm.mem_iff.mp (List.getElem_mem hlong)
      obtain ⟨place, hplace, hshard⟩ := hfits.2 _ hmem
      have hnodup : ((shuffledValidators chain.currentEpoch chain.activeValidators).map
          Validator.address).Nodup := (hperm.map _).nodup_iff.mpr hdistinct
      have hsame : place = shardCount.toNat := by
        rw [← List.getElem?_map] at hplace
        refine (List.getElem?_inj (List.getElem?_eq_some_iff.mp hplace).1 hnodup).mp
          (hplace.trans ?_)
        rw [List.getElem?_map, List.getElem?_eq_getElem hlong, Option.map_some]
      rw [hsame, Nat.mod_eq_of_lt hlt] at hshard
      exact lt_irrefl _ hshard
  · rintro (rfl | ⟨hlt, hlength⟩)
    · exact h.fits
    · rw [Fits, length_committees h]
      refine ⟨hlt.le, fun validator hvalidator => ?_⟩
      obtain ⟨place, hplace, hvalidator'⟩ := exists_place hvalidator chain.currentEpoch
      refine ⟨place, by rw [hvalidator', Option.map_some], ?_⟩
      exact (Nat.mod_le _ _).trans_lt (hplace.trans_le hlength)

end BeaconChain

/-! ## Runs -/

/-- The calls that change the validators, the epoch or the shard count. -/
inductive ShardingCall where
  | register (validator : Validator)
  | replace (validators : List Validator)
  | advance
  | applyGovernanceUpdate (newShardCount : UInt16)

namespace BeaconChain

/-- A governance update that fails changes nothing. -/
def afterCall (chain : BeaconChain) : ShardingCall → BeaconChain
  | .register validator => chain.registerValidator validator
  | .replace validators => chain.replaceValidators validators
  | .advance => chain.advanceEpoch
  | .applyGovernanceUpdate newShardCount =>
    match chain.config.applyGovernanceUpdate newShardCount with
    | .ok config => { chain with config }
    | .error _ => chain

/-- A governance update sets a count that fits the committees in force. -/
def FittingCall (chain : BeaconChain) : ShardingCall → Prop
  | .register _ => True
  | .replace _ => True
  | .advance => True
  | .applyGovernanceUpdate newShardCount =>
    validateShardCount newShardCount = .ok () → chain.Fits newShardCount

/-- The current epoch was built for some count, and the count of the configuration is not zero. -/
def Dealt (chain : BeaconChain) : Prop :=
  0 < chain.config.shardCount.toNat ∧ ∃ m, chain.DealtTo m

variable {chain : BeaconChain}

/-- A chain whose epoch has just been built is covered. -/
theorem dealt_and_covered_rebuildEpoch (h : chain.Dealt) (validators : List Validator)
    (epoch : UInt64) :
    ({ chain with validators }.rebuildEpoch epoch).Dealt ∧
      ({ chain with validators }.rebuildEpoch epoch).Covered := by
  obtain ⟨hcount, m, hm⟩ := h
  have hdealt : ({ chain with validators }.rebuildEpoch epoch).DealtTo chain.config.shardCount :=
    dealtTo_rebuildEpoch { chain with validators } hcount hm.inOrder epoch
  exact ⟨⟨hcount, _, hdealt⟩, (covered_iff hdealt).mpr hdealt.fits⟩

theorem applyGovernanceUpdate_eq (config : ShardingConfig) (newShardCount : UInt16) :
    (validateShardCount newShardCount = .ok () ∧
      config.applyGovernanceUpdate newShardCount = .ok ⟨newShardCount⟩) ∨
    (validateShardCount newShardCount ≠ .ok () ∧
      ∃ error, config.applyGovernanceUpdate newShardCount = .error error) := by
  rw [ShardingConfig.applyGovernanceUpdate]
  cases validateShardCount newShardCount with
  | ok _ => exact .inl ⟨rfl, rfl⟩
  | error error => exact .inr ⟨nofun, error, rfl⟩

theorem dealt_afterCall (h : chain.Dealt) (call : ShardingCall) : (chain.afterCall call).Dealt := by
  cases call with
  | register validator => exact (dealt_and_covered_rebuildEpoch h _ _).1
  | replace validators => exact (dealt_and_covered_rebuildEpoch h _ _).1
  | advance => exact (dealt_and_covered_rebuildEpoch h chain.validators _).1
  | applyGovernanceUpdate newShardCount =>
    rcases applyGovernanceUpdate_eq chain.config newShardCount with
      ⟨hvalid, hupdate⟩ | ⟨-, error, hupdate⟩
    -- the committees stay, whatever the new count is
    · obtain ⟨-, m, hm⟩ := h
      rw [afterCall, hupdate]
      exact ⟨pos_of_validateShardCount hvalid, m, ⟨hm.pos, hm.committees, hm.inOrder, hm.roots⟩⟩
    · rwa [afterCall, hupdate]

/-- **A call keeps the coverage** if and only if it is no governance update that sets a count that
does not fit. -/
theorem covered_afterCall_iff (h : chain.Dealt) (hcovered : chain.Covered) (call : ShardingCall) :
    (chain.afterCall call).Covered ↔ chain.FittingCall call := by
  cases call with
  | register validator => exact iff_of_true (dealt_and_covered_rebuildEpoch h _ _).2 trivial
  | replace validators => exact iff_of_true (dealt_and_covered_rebuildEpoch h _ _).2 trivial
  | advance => exact iff_of_true (dealt_and_covered_rebuildEpoch h chain.validators _).2 trivial
  | applyGovernanceUpdate newShardCount =>
    rcases applyGovernanceUpdate_eq chain.config newShardCount with
      ⟨hvalid, hupdate⟩ | ⟨hinvalid, error, hupdate⟩
    · obtain ⟨-, m, hm⟩ := h
      have hdealt : ({ chain with config := ⟨newShardCount⟩ } : BeaconChain).DealtTo m :=
        ⟨hm.pos, hm.committees, hm.inOrder, hm.roots⟩
      rw [afterCall, hupdate]
      exact (covered_iff hdealt).trans ⟨fun hfits _ => hfits, fun hfits => hfits hvalid⟩
    · rw [afterCall, hupdate]
      exact iff_of_true hcovered fun hvalid => absurd hvalid hinvalid

end BeaconChain

/-- **Shard coverage along runs**: every state of a run from a new beacon chain is covered if and
only if every governance update of the run sets a count that fits the committees in force. -/
theorem shard_coverage_along_runs_iff (config : ShardingConfig)
    (hconfig : validateShardCount config.shardCount = .ok ()) (validators : List Validator)
    (calls : List ShardingCall) :
    (∀ earlier, earlier <+: calls →
        (earlier.foldl BeaconChain.afterCall (.new config validators)).Covered) ↔
      EveryCall BeaconChain.afterCall BeaconChain.FittingCall (.new config validators) calls := by
  have hcount := pos_of_validateShardCount hconfig
  have hdealt : (BeaconChain.new config validators).DealtTo config.shardCount :=
    BeaconChain.dealtTo_new hcount validators
  have hcovered : (BeaconChain.new config validators).Covered :=
    (BeaconChain.covered_iff hdealt).mpr hdealt.fits
  have hinvariant : ∀ (chain : BeaconChain) call, chain.Dealt → (chain.afterCall call).Dealt :=
    fun _ call h => BeaconChain.dealt_afterCall h call
  have hstep : ∀ (chain : BeaconChain) call, chain.Dealt → chain.Covered →
      ((chain.afterCall call).Covered ↔ chain.FittingCall call) :=
    fun _ call h hcovered => BeaconChain.covered_afterCall_iff h hcovered call
  exact forall_prefix_iff_everyCall hinvariant hstep ⟨hcount, _, hdealt⟩ hcovered calls

/-- Two validators are dealt to four shards, and then the shards are halved. The first places of the
order are those of the two shards that stay. -/
theorem halved_fits :
    (BeaconChain.new ⟨4⟩ [firstValidator, secondValidator]).Fits 2 := by
  have hdealt : (BeaconChain.new ⟨4⟩ [firstValidator, secondValidator]).DealtTo 4 :=
    BeaconChain.dealtTo_new (by decide) _
  have hperm : (BeaconChain.new ⟨4⟩ [firstValidator, secondValidator]).activeValidators.Perm
      [firstValidator, secondValidator] :=
    (sortValidators_perm [firstValidator, secondValidator]).filter _
  refine (BeaconChain.fits_iff_length_le hdealt ?_ 2).mpr (.inr ⟨by decide, hperm.length_eq.le⟩)
  rw [(hperm.map Validator.address).nodup_iff]
  decide

/-- A governance update that fits, one that is refused, and the next epoch. -/
theorem halvedRun_covered : validateShardCount 4 = .ok () ∧
    ∀ earlier, earlier <+:
        [ShardingCall.applyGovernanceUpdate 2, .applyGovernanceUpdate 3, .advance] →
      (earlier.foldl BeaconChain.afterCall
        (.new ⟨4⟩ [firstValidator, secondValidator])).Covered := by
  refine ⟨by decide,
    (shard_coverage_along_runs_iff ⟨4⟩ (by decide) [firstValidator, secondValidator] _).mpr
      ⟨fun _ => halved_fits, fun hvalid => absurd hvalid (by decide), trivial, trivial⟩⟩

/-- **A larger count** leaves the new shards without a committee until the epoch is built anew. -/
theorem enlarged_not_covered :
    validateShardCount 4 = .ok () ∧ validateShardCount 8 = .ok () ∧
      ¬ ((BeaconChain.new ⟨4⟩ [firstValidator]).afterCall (.applyGovernanceUpdate 8)).Covered := by
  refine ⟨by decide, by decide, fun hcovered => ?_⟩
  have hdealt : (BeaconChain.new ⟨4⟩ [firstValidator]).DealtTo 4 :=
    BeaconChain.dealtTo_new (by decide) [firstValidator]
  have hfits := (BeaconChain.covered_afterCall_iff ⟨by decide, 4, hdealt⟩
    ((BeaconChain.covered_iff hdealt).mpr hdealt.fits) _).mp hcovered (by decide)
  have hle := hfits.1
  rw [BeaconChain.length_committees hdealt] at hle
  exact absurd hle (by decide)

end Prims
