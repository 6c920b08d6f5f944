import Prims.Sharding.BeaconChain

/-!
# The committees as a partition

A chain is started with validators of distinct addresses, and its epoch is advanced some number of
times. In the epoch reached, the committees of the shards hold every active validator once, they are
of even size, and they are the committees that the assignments name. The order in which the
validators were supplied makes no difference, since the chain sorts them first.

## Main definitions

* `BeaconChain.currentCommittee`: the committee of a shard in the current epoch

## Main results

* `flatMap_currentCommittee_perm`: the committees together are the active validators
* `new_eq_of_perm`: the order of the validators makes no difference
* `committees_partition_validators`: what holds after any number of epochs
-/

namespace Prims

/-! ## The order of the validators -/

instance : Std.TransCmp Validator.cmp :=
  inferInstanceAs (Std.TransCmp (compareLex (compareLex (compareOn Validator.address)
    (compareOn Validator.stake)) (compareOn Validator.lockedUntil)))

instance : Std.LawfulEqCmp Validator.cmp where
  eq_of_compare {left right} h := by
    obtain ⟨address, stake, lockedUntil⟩ := left
    obtain ⟨address', stake', lockedUntil'⟩ := right
    simp only [Validator.cmp, Ordering.then_eq_eq, Std.compare_eq_iff_eq] at h
    obtain ⟨⟨rfl, rfl⟩, rfl⟩ := h
    rfl

/-- Validators that are supplied in another order are sorted the same. -/
theorem sortValidators_eq_of_perm {validators supplied : List Validator}
    (hperm : supplied.Perm validators) (hnodup : validators.Nodup) :
    sortValidators supplied = sortValidators validators :=
  (sortByKey_eq_of_perm Validator.cmp id hperm.symm (by rwa [List.map_id])).symm

/-- **The order of the validators** makes no difference to a new chain. -/
theorem BeaconChain.new_eq_of_perm (config : ShardingConfig) {validators supplied : List Validator}
    (hperm : supplied.Perm validators) (hnodup : validators.Nodup) :
    BeaconChain.new config supplied = BeaconChain.new config validators := by
  rw [BeaconChain.new, sortValidators_eq_of_perm hperm hnodup]
  rfl

/-! ## The committees of the current epoch -/

/-- Elements of a list in which a key is not repeated are told apart by the key. -/
theorem perm_of_map_perm {α κ : Type} {key : α → κ} {l l₁ l₂ : List α} (hnodup : (l.map key).Nodup)
    (h₁ : l₁ ⊆ l) (h₂ : l₂ ⊆ l) (hkeys : (l₁.map key).Nodup)
    (hperm : (l₁.map key).Perm (l₂.map key)) : l₁.Perm l₂ := by
  have hmem : ∀ {l₃ l₄ : List α}, l₃ ⊆ l → l₄ ⊆ l → l₃.map key ⊆ l₄.map key → l₃ ⊆ l₄ := by
    intro l₃ l₄ h₃ h₄ hsubset a ha
    obtain ⟨b, hb, hba⟩ := List.mem_map.mp (hsubset (List.mem_map_of_mem ha))
    rwa [← List.inj_on_of_nodup_map hnodup (h₄ hb) (h₃ ha) hba]
  rw [List.perm_ext_iff_of_nodup hkeys.of_map (hperm.nodup_iff.mp hkeys).of_map]
  exact fun a => ⟨fun ha => hmem h₁ h₂ hperm.subset ha, fun ha => hmem h₂ h₁ hperm.symm.subset ha⟩

namespace BeaconChain

/-- The committee of a shard in the current epoch: the active validators whose addresses were dealt
to it. -/
def currentCommittee (chain : BeaconChain) (shardId : UInt16) : List Validator :=
  sortValidators (chain.activeValidators.filter fun validator =>
    (dealtAddresses chain.currentEpoch chain.config.shardCount chain.activeValidators shardId).any
      fun address => address = validator.address)

variable {chain : BeaconChain}

theorem validatorsForShard_eq (h : chain.Rebuilt) {shardId : UInt16}
    (hshard : shardId < chain.config.shardCount) :
    chain.validatorsForShard chain.currentEpoch shardId = .ok (chain.currentCommittee shardId) := by
  rw [validatorsForShard, validateShardId, ensure, if_pos hshard, committeeForShard_eq h hshard]
  rfl

theorem currentCommittee_subset (chain : BeaconChain) (shardId : UInt16) :
    chain.currentCommittee shardId ⊆ chain.activeValidators :=
  fun _ hmem => (List.mem_filter.mp ((sortValidators_perm _).subset hmem)).1

/-- The addresses of a committee are the ones that were dealt to the shard. -/
theorem currentCommittee_addresses_perm
    (hdistinct : (chain.activeValidators.map Validator.address).Nodup) (shardId : UInt16) :
    ((chain.currentCommittee shardId).map Validator.address).Perm
      (dealtAddresses chain.currentEpoch chain.config.shardCount chain.activeValidators shardId) :=
  ((sortValidators_perm (chain.currentCommittee shardId)).map _).symm.trans
    (currentConsensus_perm hdistinct shardId)

/-- **The committees together** are the active validators. -/
theorem flatMap_currentCommittee_perm (h : chain.Rebuilt)
    (hcount : 0 < chain.config.shardCount.toNat)
    (hdistinct : (chain.activeValidators.map Validator.address).Nodup) :
    ((shardIds chain.config.shardCount).flatMap chain.currentCommittee).Perm
      chain.activeValidators := by
  have haddresses : (((shardIds chain.config.shardCount).flatMap chain.currentCommittee).map
      Validator.address).Perm (chain.activeValidators.map Validator.address) := by
    refine List.Perm.trans ?_ (flatMap_committees_perm h hcount)
    rw [h, buildCommitteeAssignments_eq, List.flatMap_map, List.map_flatMap]
    exact List.Perm.flatMap_left _ fun shardId _ =>
      currentCommittee_addresses_perm hdistinct shardId
  refine perm_of_map_perm hdistinct (fun validator hmem => ?_) (List.Subset.refl _)
    (haddresses.nodup_iff.mpr hdistinct) haddresses
  obtain ⟨shardId, -, hvalidator⟩ := List.mem_flatMap.mp hmem
  exact currentCommittee_subset chain shardId hvalidator

/-- No committee has two members more than another. -/
theorem length_currentCommittee_le
    (hdistinct : (chain.activeValidators.map Validator.address).Nodup) {left right : UInt16}
    (hleft : left < chain.config.shardCount) (hright : right < chain.config.shardCount) :
    (chain.currentCommittee left).length ≤ (chain.currentCommittee right).length + 1 := by
  have hlength : ∀ shardId, (chain.currentCommittee shardId).length =
      (everyNth chain.config.shardCount.toNat shardId.toNat
        (shuffledValidators chain.currentEpoch chain.activeValidators)).length := by
    intro shardId
    have hperm := (currentCommittee_addresses_perm hdistinct shardId).length_eq
    rwa [dealtAddresses, List.length_map, List.length_map] at hperm
  rw [hlength, hlength]
  exact length_everyNth_le (UInt16.lt_iff_toNat_lt.mp hleft) (UInt16.lt_iff_toNat_lt.mp hright) _

/-- The committees of all shards, as they are read off the chain. -/
theorem mapM_validatorsForShard (h : chain.Rebuilt) :
    (shardIds chain.config.shardCount).mapM (chain.validatorsForShard chain.currentEpoch) =
      .ok ((shardIds chain.config.shardCount).map chain.currentCommittee) :=
  mapM_eq_ok_map fun _ hmem => validatorsForShard_eq h (mem_shardIds.mp hmem)

/-- **The committees of a rebuilt chain**: they are read off it, they are the active validators
together, and they are of even size. -/
theorem exists_committees (h : chain.Rebuilt) (hcount : 0 < chain.config.shardCount.toNat)
    (hdistinct : (chain.activeValidators.map Validator.address).Nodup) :
    ∃ committees, (shardIds chain.config.shardCount).mapM
        (chain.validatorsForShard chain.currentEpoch) = .ok committees ∧
      committees.flatten.Perm chain.activeValidators ∧
      ∀ left ∈ committees, ∀ right ∈ committees, left.length ≤ right.length + 1 := by
  refine ⟨_, mapM_validatorsForShard h, ?_, ?_⟩
  · rw [← List.flatMap_def]
    exact flatMap_currentCommittee_perm h hcount hdistinct
  · intro left hleft right hright
    obtain ⟨i, hi, rfl⟩ := List.mem_map.mp hleft
    obtain ⟨j, hj, rfl⟩ := List.mem_map.mp hright
    exact length_currentCommittee_le hdistinct (mem_shardIds.mp hi) (mem_shardIds.mp hj)

/-- The committee of a shard and its assignment have the same addresses. -/
theorem exists_committee_assignment (h : chain.Rebuilt)
    (hdistinct : (chain.activeValidators.map Validator.address).Nodup) {shardId : UInt16}
    (hshard : shardId < chain.config.shardCount) :
    ∃ committee assignment,
      chain.validatorsForShard chain.currentEpoch shardId = .ok committee ∧
        chain.committeeForShard chain.currentEpoch shardId = some assignment ∧
        (committee.map Validator.address).Perm assignment.validatorAddresses :=
  ⟨_, _, validatorsForShard_eq h hshard, committeeForShard_eq h hshard,
    currentCommittee_addresses_perm hdistinct shardId⟩

/-! ## Epochs -/

/-- After `k` epochs the chain has the validators of the start, and the committees of its epoch
are the ones just built. -/
theorem advanceEpoch_iterate (config : ShardingConfig) (validators : List Validator) (k : ℕ) :
    (advanceEpoch^[k] (.new config validators)).Rebuilt ∧
      (advanceEpoch^[k] (.new config validators)).config = config ∧
      (advanceEpoch^[k] (.new config validators)).validators = sortValidators validators ∧
      (advanceEpoch^[k] (.new config validators)).currentEpoch = UInt64.ofNat k := by
  induction k with
  | zero => exact ⟨rebuilt_rebuildEpoch _ _, rfl, rfl, rfl⟩
  | succ k ih =>
    obtain ⟨-, hconfig, hvalidators, hepoch⟩ := ih
    rw [Function.iterate_succ_apply']
    refine ⟨rebuilt_rebuildEpoch _ _, hconfig, hvalidators, ?_⟩
    show (advanceEpoch^[k] (.new config validators)).currentEpoch + 1 = _
    rw [hepoch, UInt64.ofNat_add]
    rfl

end BeaconChain

/-- **Committees partition the active validators**: after any number of epochs, every shard has a
committee, the committees together are the active validators, no committee has two members more
than another, the addresses of a committee are those of its assignment, and the order in which the
validators were supplied makes no difference. -/
theorem committees_partition_validators (config : ShardingConfig)
    (hconfig : validateShardCount config.shardCount = .ok ()) (validators : List Validator)
    (hdistinct : (validators.map Validator.address).Nodup) (k : ℕ) :
    let chain := BeaconChain.advanceEpoch^[k] (.new config validators)
    let epoch := UInt64.ofNat k
    (∃ committees,
      (shardIds config.shardCount).mapM (chain.validatorsForShard epoch) = .ok committees ∧
        committees.flatten.Perm chain.activeValidators ∧
        ∀ left ∈ committees, ∀ right ∈ committees, left.length ≤ right.length + 1) ∧
    chain.activeValidators.Perm (validators.filter fun validator => 0 < validator.stake) ∧
    (∀ shardId < config.shardCount, ∃ committee assignment,
      chain.validatorsForShard epoch shardId = .ok committee ∧
        chain.committeeForShard epoch shardId = some assignment ∧
        (committee.map Validator.address).Perm assignment.validatorAddresses) ∧
    ∀ supplied : List Validator, supplied.Perm validators →
      BeaconChain.advanceEpoch^[k] (.new config supplied) = chain := by
  intro chain epoch
  obtain ⟨hrebuilt, hchain, hvalidators, hepoch⟩ :=
    BeaconChain.advanceEpoch_iterate config validators k
  have hcurrent : epoch = chain.currentEpoch := hepoch.symm
  have hcount : 0 < chain.config.shardCount.toNat := by
    rw [hchain]
    exact pos_of_validateShardCount hconfig
  have hactive : (chain.activeValidators.map Validator.address).Nodup := by
    rw [BeaconChain.activeValidators, hvalidators]
    exact BeaconChain.nodup_filter_sortValidators hdistinct
  rw [hcurrent, ← hchain]
  refine ⟨BeaconChain.exists_committees hrebuilt hcount hactive, ?_,
    fun shardId hlt => BeaconChain.exists_committee_assignment hrebuilt hactive hlt,
    fun supplied hperm => ?_⟩
  · rw [BeaconChain.activeValidators, hvalidators]
    exact (sortValidators_perm validators).filter _
  · rw [hchain, BeaconChain.new_eq_of_perm config hperm hdistinct.of_map]

theorem sampleChain_partitioned :
    validateShardCount 4 = .ok () ∧
      ([firstValidator, secondValidator].map Validator.address).Nodup ∧
      ∃ committees, (shardIds 4).mapM ((BeaconChain.advanceEpoch^[3]
          (.new ⟨4⟩ [firstValidator, secondValidator])).validatorsForShard 3) = .ok committees ∧
        committees.flatten.Perm (BeaconChain.advanceEpoch^[3]
          (.new ⟨4⟩ [firstValidator, secondValidator])).activeValidators ∧
        ∀ left ∈ committees, ∀ right ∈ committees, left.length ≤ right.length + 1 :=
  ⟨by decide, by decide, (committees_partition_validators ⟨4⟩ (by decide)
    [firstValidator, secondValidator] (by decide) 3).1⟩

end Prims
