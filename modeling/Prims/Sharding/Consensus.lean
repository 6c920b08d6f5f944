import Mathlib.Algebra.BigOperators.Ring.List
import Mathlib.Algebra.Order.BigOperators.Group.List
import Prims.Consensus.Tallying
import Prims.Consensus.Threshold
import Prims.Sharding.Partition

/-!
# The consensus of the shards

In every epoch each shard has a consensus of its own, which collects votes of its committee. Votes
come to the shards in any order, and a vote may be offered to any shard. The shards do not share
anything, and every active validator is in one committee: so no stake is counted twice, all tallies
together have at most the active stake, and if every shard that has members is finalized, more than
two thirds of the whole active stake approve. A shard without members is never finalized.

## Main definitions

* `ShardConsensus.collectVote`, `ShardConsensus.TallyResult`, `ShardConsensus.FinalizedResult`
* `collectInShards`: votes that are offered to the shards

## Main results

* `collectInShards_apply`: what a shard collects depends on the votes that are offered to it
* `shards_finalize_together`: the tallies of all shards, in every run of votes
-/

namespace Prims

open Quorum

/-! ## One shard -/

namespace ShardConsensus

def voteCount (shard : ShardConsensus) : ℕ := shard.collector.votes.length

def collectVote (P : Primitives) (shard : ShardConsensus) (vote : ConsensusVote) :
    Except ShardConsensusError Unit × ShardConsensus :=
  let (result, collector) := shard.collector.collectVote P vote shard.committee
  (result.mapError .vote, { shard with collector })

/-- What `tally` may return: the votes are read in any order. -/
def TallyResult (shard : ShardConsensus) (r : Except (Fault ShardConsensusError) VoteTally) :
    Prop :=
  ∃ result, shard.collector.TallyResult shard.committee result ∧
    r = result.mapError (Fault.map .vote)

/-- What `is_finalized` may return. -/
def FinalizedResult (shard : ShardConsensus) (r : Except (Fault ShardConsensusError) Bool) :
    Prop :=
  ∃ result, shard.TallyResult result ∧
    r = result.map fun tally => isBlockFinalized tally shard.committee

variable {shard : ShardConsensus}

theorem tallyResult_ok {t : VoteTally} :
    shard.TallyResult (.ok t) ↔ shard.collector.TallyResult shard.committee (.ok t) := by
  constructor
  · rintro ⟨result, hresult, heq⟩
    rwa [Except.mapError_eq_ok.mp heq.symm] at hresult
  · intro h
    exact ⟨_, h, rfl⟩

/-- **A consensus in order**: the members have different addresses and stakes that fit in 64 bits,
and the collected votes are acceptable votes of members. -/
structure Sound (P : Primitives) (offered : List ConsensusVote) (shard : ShardConsensus) :
    Prop where
  distinct : (shard.committee.map Validator.address).Nodup
  fits : activeStake shard.committee < 2 ^ 64
  collector : shard.collector.WellFormed P shard.committee offered

variable {P : Primitives} {offered : List ConsensusVote}

/-- A tally returns the stakes behind the collected votes. -/
theorem Sound.tally (h : shard.Sound P offered)
    {r : Except (Fault ShardConsensusError) VoteTally} (hr : shard.TallyResult r) :
    ∃ t, r = .ok t ∧ ∀ side,
      (t.stake side).toNat = sideStake shard.committee side shard.collector.votes := by
  obtain ⟨result, hresult, rfl⟩ := hr
  obtain ⟨t, rfl, hstake⟩ := tallyResult_eq_ok h.distinct h.fits h.collector hresult
  exact ⟨t, rfl, hstake⟩

/-- There is a tally. -/
theorem Sound.exists_tally (h : shard.Sound P offered) : ∃ t, shard.TallyResult (.ok t) := by
  obtain ⟨t, ht, -⟩ := h.tally ⟨_, ⟨_, List.Perm.refl _, rfl⟩, rfl⟩
  exact ⟨t, _, ⟨_, List.Perm.refl _, rfl⟩, ht.symm⟩

/-- **When a shard is finalized**: more than two thirds of the stake of its committee approve. -/
theorem Sound.finalized_iff (h : shard.Sound P offered) :
    shard.FinalizedResult (.ok true) ↔
      2 * activeStake shard.committee < 3 * stakeOf shard.committee fun v =>
        (shard.collector.approval v.address).isSome := by
  have hrule : ∀ t, shard.TallyResult (.ok t) → (isBlockFinalized t shard.committee ↔
      2 * activeStake shard.committee < 3 * stakeOf shard.committee fun v =>
        (shard.collector.approval v.address).isSome) := by
    intro t ht
    have happrove := tally_approveStake h.distinct h.collector (tallyResult_ok.mp ht)
    rw [isBlockFinalized_iff, happrove]
    exact (wrapped_iff_exact_iff weight_le_sum).mpr (.inl h.fits)
  constructor
  · rintro ⟨result, hresult, heq⟩
    obtain ⟨t, rfl, -⟩ := h.tally hresult
    exact (hrule t hresult).mp (Except.ok.inj heq).symm
  · intro happrove
    obtain ⟨t, ht⟩ := h.exists_tally
    refine ⟨_, ht, ?_⟩
    rw [Except.map, (hrule t ht).mpr happrove]

/-- The approving stake of a finalized shard, as it is tallied. -/
theorem Sound.lt_approveStake (h : shard.Sound P offered) (hf : shard.FinalizedResult (.ok true))
    {t : VoteTally} (ht : shard.TallyResult (.ok t)) :
    2 * activeStake shard.committee < 3 * t.approveStake.toNat := by
  rw [tally_approveStake h.distinct h.collector (tallyResult_ok.mp ht)]
  exact h.finalized_iff.mp hf

/-- A shard without members is not finalized. -/
theorem Sound.not_finalized_of_empty (h : shard.Sound P offered) (hempty : shard.committee = []) :
    ¬ shard.FinalizedResult (.ok true) := by
  rw [h.finalized_iff, hempty]
  exact Nat.lt_irrefl 0

/-- Both sides of a tally together. -/
theorem Sound.tally_le (h : shard.Sound P offered) {t : VoteTally}
    (ht : shard.TallyResult (.ok t)) :
    t.approveStake.toNat + t.rejectStake.toNat ≤ activeStake shard.committee := by
  obtain ⟨t', hok, hstake⟩ := h.tally ht
  cases hok
  have happrove : t.approveStake.toNat = _ := hstake true
  have hreject : t.rejectStake.toNat = _ := hstake false
  rw [happrove, hreject]
  exact sideStake_votes_le h.distinct h.collector

/-- Every collected vote is the vote of a member, and no member has two. -/
theorem Sound.voters (h : shard.Sound P offered) :
    (shard.collector.votes.map ConsensusVote.voter).Nodup ∧
      shard.collector.votes.map ConsensusVote.voter ⊆ shard.committee.map Validator.address := by
  refine ⟨h.collector.nodup_voters, fun address haddress => ?_⟩
  obtain ⟨vote, hvote, rfl⟩ := List.mem_map.mp haddress
  obtain ⟨member, hmember, heq, -⟩ :=
    validatorStake_isSome (h.collector.acceptable hvote).2.1
  exact heq ▸ List.mem_map_of_mem hmember

end ShardConsensus

/-! ## All shards -/

section Shards

variable (P : Primitives)

/-- A vote is offered to a shard, whatever comes of it. -/
def offerVote (shards : UInt16 → ShardConsensus) (offer : UInt16 × ConsensusVote) :
    UInt16 → ShardConsensus :=
  Function.update shards offer.1 ((shards offer.1).collectVote P offer.2).2

/-- The shards after a run of votes. -/
def collectInShards (shards : UInt16 → ShardConsensus) (offers : List (UInt16 × ConsensusVote)) :
    UInt16 → ShardConsensus :=
  offers.foldl (offerVote P) shards

/-- The votes that are offered to a shard, in order. -/
def offeredTo (shardId : UInt16) (offers : List (UInt16 × ConsensusVote)) : List ConsensusVote :=
  offers.filterMap fun offer => if offer.1 = shardId then some offer.2 else none

variable {P}

/-- **The shards do not share anything**: what a shard collects depends on the votes that are
offered to it. -/
theorem collectInShards_apply (shards : UInt16 → ShardConsensus)
    (offers : List (UInt16 × ConsensusVote)) (shardId : UInt16) :
    collectInShards P shards offers shardId = { shards shardId with
      collector := (offeredTo shardId offers).foldl
        (fun c vote => (c.collectVote P vote (shards shardId).committee).2)
        (shards shardId).collector } := by
  induction offers generalizing shards with
  | nil => rfl
  | cons offer offers ih =>
    rw [collectInShards, List.foldl_cons]
    refine (ih (offerVote P shards offer)).trans ?_
    rw [offerVote]
    by_cases hshard : offer.1 = shardId
    · have hoffered : offeredTo shardId (offer :: offers) =
          offer.2 :: offeredTo shardId offers := by
        rw [offeredTo, List.filterMap_cons, if_pos hshard]
        rfl
      rw [hoffered, List.foldl_cons, hshard, Function.update_self]
      rfl
    · have hoffered : offeredTo shardId (offer :: offers) = offeredTo shardId offers := by
        rw [offeredTo, List.filterMap_cons, if_neg hshard]
        rfl
      rw [hoffered, Function.update_of_ne (Ne.symm hshard)]

end Shards

/-! ## The shards of an epoch -/

theorem activeStake_perm {l l' : List Validator} (h : l.Perm l') :
    activeStake l = activeStake l' := (h.map _).sum_eq

/-- The stake of all committees, added up committee by committee. -/
theorem activeStake_flatMap {ι : Type} (l : List ι) (committee : ι → List Validator) :
    activeStake (l.flatMap committee) = (l.map fun i => activeStake (committee i)).sum := by
  induction l with
  | nil => rfl
  | cons i l ih =>
    rw [List.flatMap_cons, activeStake, List.map_append, List.sum_append, List.map_cons,
      List.sum_cons, ← ih]
    rfl

namespace BeaconChain

variable {chain : BeaconChain}

theorem committee_currentConsensus_perm (chain : BeaconChain) (shardId : UInt16) :
    (chain.currentConsensus shardId).committee.Perm (chain.currentCommittee shardId) :=
  sortValidators_perm _

/-- The members of all shards are the active validators. -/
theorem flatMap_consensus_perm (h : chain.Rebuilt) (hcount : 0 < chain.config.shardCount.toNat)
    (hdistinct : (chain.activeValidators.map Validator.address).Nodup) :
    ((shardIds chain.config.shardCount).flatMap fun shardId =>
      (chain.currentConsensus shardId).committee).Perm chain.activeValidators :=
  (List.Perm.flatMap_left _ fun shardId _ => committee_currentConsensus_perm chain shardId).trans
    (flatMap_currentCommittee_perm h hcount hdistinct)

/-- The members of a shard are some of the active validators. -/
theorem exists_sublist_of_consensus (chain : BeaconChain) (shardId : UInt16) :
    ∃ members : List Validator, members.Perm (chain.currentConsensus shardId).committee ∧
      members.Sublist chain.activeValidators :=
  ⟨_, ((committee_currentConsensus_perm chain shardId).trans (sortValidators_perm _)).symm,
    List.filter_sublist⟩

theorem activeStake_sublist {l l' : List Validator} (h : l.Sublist l') :
    activeStake l ≤ activeStake l' := by
  induction h with
  | slnil => exact Nat.le_refl _
  | cons validator _ ih =>
    rw [activeStake_cons]
    exact ih.trans (Nat.le_add_left _ _)
  | cons_cons validator _ ih =>
    rw [activeStake_cons, activeStake_cons]
    exact Nat.add_le_add_left ih _

/-- Every shard is in order, in every run of votes. -/
theorem sound_collectInShards (P : Primitives)
    (hdistinct : (chain.activeValidators.map Validator.address).Nodup)
    (hfits : activeStake chain.activeValidators < 2 ^ 64)
    (offers : List (UInt16 × ConsensusVote)) (shardId : UInt16) :
    (collectInShards P chain.currentConsensus offers shardId).Sound P
      (offeredTo shardId offers) := by
  obtain ⟨members, hperm, hsublist⟩ := exists_sublist_of_consensus chain shardId
  rw [collectInShards_apply]
  refine ⟨?_, ?_, collectVotes_wellFormed P _ _⟩
  · exact (hperm.map _).nodup_iff.mp ((hsublist.map _).nodup hdistinct)
  · calc activeStake (chain.currentConsensus shardId).committee
        = activeStake members := (activeStake_perm hperm).symm
      _ ≤ activeStake chain.activeValidators := activeStake_sublist hsublist
      _ < 2 ^ 64 := hfits

/-- A run of votes leaves the members as they are. -/
theorem committee_collectInShards (P : Primitives) (offers : List (UInt16 × ConsensusVote))
    (shardId : UInt16) : (collectInShards P chain.currentConsensus offers shardId).committee =
      (chain.currentConsensus shardId).committee := by
  rw [collectInShards_apply]

/-- **No voter is counted twice** in all shards together. -/
theorem nodup_voters (P : Primitives) (h : chain.Rebuilt)
    (hcount : 0 < chain.config.shardCount.toNat)
    (hdistinct : (chain.activeValidators.map Validator.address).Nodup)
    (hfits : activeStake chain.activeValidators < 2 ^ 64)
    (offers : List (UInt16 × ConsensusVote)) :
    ((shardIds chain.config.shardCount).flatMap fun shardId =>
      (collectInShards P chain.currentConsensus offers shardId).collector.votes.map
        ConsensusVote.voter).Nodup := by
  -- the addresses of all members are distinct, so two shards have no member in common
  have hmembers : ((shardIds chain.config.shardCount).flatMap fun shardId =>
      (chain.currentConsensus shardId).committee.map Validator.address).Nodup := by
    rw [← List.map_flatMap]
    exact ((flatMap_consensus_perm h hcount hdistinct).map _).nodup_iff.mpr hdistinct
  rw [List.nodup_flatMap] at hmembers ⊢
  refine ⟨fun shardId _ => ((sound_collectInShards P hdistinct hfits offers shardId).voters).1,
    hmembers.2.imp fun {left right} hdisjoint => ?_⟩
  intro address hleft hright
  have hin : ∀ shardId, address ∈ (collectInShards P chain.currentConsensus offers
      shardId).collector.votes.map ConsensusVote.voter →
        address ∈ (chain.currentConsensus shardId).committee.map Validator.address := by
    intro shardId hmem
    rw [← committee_collectInShards P offers shardId]
    exact (sound_collectInShards P hdistinct hfits offers shardId).voters.2 hmem
  exact hdisjoint (hin left hleft) (hin right hright)

end BeaconChain

/-- Every run of calls leaves the committees of its last epoch, for the shard count of the start. -/
theorem BeaconChain.rebuilt_run {chain : BeaconChain} (h : chain.Rebuilt)
    (calls : List ReassignCall) :
    (calls.foldl BeaconChain.step chain).Rebuilt ∧
      (calls.foldl BeaconChain.step chain).config = chain.config := by
  induction calls generalizing chain with
  | nil => exact ⟨h, rfl⟩
  | cons call calls ih =>
    obtain ⟨hrebuilt, hconfig⟩ := ih (rebuilt_step chain call)
    exact ⟨hrebuilt, hconfig.trans (config_step chain call)⟩

section Finalized

variable {chain : BeaconChain} {P : Primitives}

/-- The members of all shards have the active stake together. -/
theorem BeaconChain.sum_activeStake (h : chain.Rebuilt)
    (hcount : 0 < chain.config.shardCount.toNat)
    (hdistinct : (chain.activeValidators.map Validator.address).Nodup) :
    ((shardIds chain.config.shardCount).map fun shardId =>
      activeStake (chain.currentConsensus shardId).committee).sum =
        activeStake chain.activeValidators := by
  rw [← activeStake_flatMap]
  exact activeStake_perm (flatMap_consensus_perm h hcount hdistinct)

/-- **All shards together**: where every shard that has members is finalized, the tallies approve
with more than two thirds of the whole active stake. -/
theorem BeaconChain.two_thirds_of_finalized (h : chain.Rebuilt)
    (hcount : 0 < chain.config.shardCount.toNat)
    (hdistinct : (chain.activeValidators.map Validator.address).Nodup)
    (hactive : 0 < activeStake chain.activeValidators) {approving : UInt16 → ℕ}
    (hfinal : ∀ shardId < chain.config.shardCount,
      (chain.currentConsensus shardId).committee ≠ [] →
        2 * activeStake (chain.currentConsensus shardId).committee < 3 * approving shardId) :
    2 * activeStake chain.activeValidators <
      3 * ((shardIds chain.config.shardCount).map approving).sum := by
  have hsum := sum_activeStake h hcount hdistinct
  rw [← hsum, ← List.sum_map_mul_left, ← List.sum_map_mul_left]
  apply List.sum_lt_sum
  · intro shardId hmem
    by_cases hempty : (chain.currentConsensus shardId).committee = []
    · rw [hempty]
      exact Nat.zero_le _
    · exact (hfinal shardId (mem_shardIds.mp hmem) hempty).le
  · by_contra hnone
    push Not at hnone
    have hzero : ∀ shardId ∈ shardIds chain.config.shardCount,
        activeStake (chain.currentConsensus shardId).committee = 0 := by
      intro shardId hmem
      by_cases hempty : (chain.currentConsensus shardId).committee = []
      · rw [hempty]
        rfl
      · exact absurd (hfinal shardId (mem_shardIds.mp hmem) hempty)
          (not_lt.mpr (hnone shardId hmem))
    rw [← hsum, List.map_congr_left hzero] at hactive
    simp at hactive

end Finalized

/-- **The shards finalize together.** On a beacon chain reached by any calls that register no active
address again, the consensus of every shard can be started in the current epoch; and in every run of
votes, each offered to any of the shards, every tally of a shard returns, no voter is counted twice
in all shards together, and all tallies together have at most the active stake. A shard is finalized
if and only if more than two thirds of the stake of its committee approve, so never without members;
and if all shards with members are finalized, then the tallies approve with more than two thirds of
the whole active stake. -/
theorem shards_finalize_together (P : Primitives) (config : ShardingConfig)
    (hconfig : validateShardCount config.shardCount = .ok ()) (validators : List Validator)
    (hdistinct : (validators.map Validator.address).Nodup) (calls : List ReassignCall)
    (hfresh : (BeaconChain.new config validators).FreshRun calls) :
    let chain := calls.foldl BeaconChain.step (.new config validators)
    activeStake chain.activeValidators < 2 ^ 64 →
    ∃ start : UInt16 → ShardConsensus,
      (∀ shardId < config.shardCount,
        chain.consensusForShard chain.currentEpoch shardId = .ok (start shardId)) ∧
      ∀ offers : List (UInt16 × ConsensusVote),
        let shards := collectInShards P start offers
        (∀ shardId < config.shardCount,
          (∀ r, (shards shardId).TallyResult r → ∃ t, r = .ok t) ∧
          ((shards shardId).FinalizedResult (.ok true) ↔
            2 * activeStake (shards shardId).committee <
              3 * stakeOf (shards shardId).committee fun v =>
                ((shards shardId).collector.approval v.address).isSome) ∧
          ((shards shardId).committee = [] → ¬ (shards shardId).FinalizedResult (.ok true))) ∧
        ((shardIds config.shardCount).flatMap fun shardId =>
          (shards shardId).collector.votes.map ConsensusVote.voter).Nodup ∧
        ∀ tallies : UInt16 → VoteTally,
          (∀ shardId < config.shardCount, (shards shardId).TallyResult (.ok (tallies shardId))) →
          ((shardIds config.shardCount).map fun shardId => (tallies shardId).approveStake.toNat +
            (tallies shardId).rejectStake.toNat).sum ≤ activeStake chain.activeValidators ∧
          (0 < activeStake chain.activeValidators →
            (∀ shardId < config.shardCount, (shards shardId).committee ≠ [] →
              (shards shardId).FinalizedResult (.ok true)) →
            2 * activeStake chain.activeValidators <
              3 * ((shardIds config.shardCount).map fun shardId =>
                (tallies shardId).approveStake.toNat).sum) := by
  intro chain hfits
  have hpos := pos_of_validateShardCount hconfig
  have hnew : (BeaconChain.new config validators).Rebuilt := BeaconChain.rebuilt_rebuildEpoch _ _
  obtain ⟨hrebuilt, hchain⟩ : chain.Rebuilt ∧ chain.config = config :=
    BeaconChain.rebuilt_run hnew calls
  have hcount : 0 < chain.config.shardCount.toNat := by rwa [hchain]
  have hnodup : (chain.activeValidators.map Validator.address).Nodup := by
    apply (BeaconChain.oneCommittee_iff_nodup hrebuilt hcount).mp
    exact (BeaconChain.oneCommittee_run_iff hnew hpos
      (BeaconChain.nodup_filter_sortValidators hdistinct) calls).mpr hfresh calls
        (List.prefix_refl calls)
  rw [← hchain]
  refine ⟨chain.currentConsensus, fun shardId hshard =>
    BeaconChain.consensusForShard_eq hrebuilt hshard, fun offers => ?_⟩
  intro shards
  have hsound : ∀ shardId, (shards shardId).Sound P (offeredTo shardId offers) :=
    BeaconChain.sound_collectInShards P hnodup hfits offers
  have hcommittee : ∀ shardId, (shards shardId).committee =
      (chain.currentConsensus shardId).committee :=
    BeaconChain.committee_collectInShards P offers
  refine ⟨fun shardId _ => ⟨fun r hr => ?_, (hsound shardId).finalized_iff,
      (hsound shardId).not_finalized_of_empty⟩,
    BeaconChain.nodup_voters P hrebuilt hcount hnodup hfits offers,
    fun tallies htallies => ⟨?_, ?_⟩⟩
  · obtain ⟨t, rfl, -⟩ := (hsound shardId).tally hr
    exact ⟨t, rfl⟩
  · rw [← BeaconChain.sum_activeStake hrebuilt hcount hnodup]
    apply List.sum_le_sum
    intro shardId hmem
    rw [← hcommittee]
    exact (hsound shardId).tally_le (htallies shardId (mem_shardIds.mp hmem))
  · intro hactive hfinal
    refine BeaconChain.two_thirds_of_finalized hrebuilt hcount hnodup hactive
      fun shardId hshard hmembers => ?_
    rw [← hcommittee] at hmembers ⊢
    exact (hsound shardId).lt_approveStake (hfinal shardId hshard hmembers)
      (htallies shardId hshard)

/-- A chain with one validator, one epoch later. -/
theorem sampleShards_finalize_together :
    let chain := [ReassignCall.advance].foldl BeaconChain.step (.new ⟨4⟩ [firstValidator])
    validateShardCount 4 = .ok () ∧ ([firstValidator].map Validator.address).Nodup ∧
      (BeaconChain.new ⟨4⟩ [firstValidator]).FreshRun [.advance] ∧
      activeStake chain.activeValidators < 2 ^ 64 ∧
      ∃ start : UInt16 → ShardConsensus,
        (∀ shardId < (4 : UInt16),
          chain.consensusForShard chain.currentEpoch shardId = .ok (start shardId)) ∧
        ∀ offers, ((shardIds 4).flatMap fun shardId =>
          (collectInShards voteSignatures start offers shardId).collector.votes.map
            ConsensusVote.voter).Nodup := by
  intro chain
  have hactive : chain.activeValidators = [firstValidator] := activeValidators_new_firstValidator
  have hfits : activeStake chain.activeValidators < 2 ^ 64 := by
    rw [hactive]
    decide
  obtain ⟨start, hstart, hrun⟩ := shards_finalize_together voteSignatures ⟨4⟩ (by decide)
    [firstValidator] (by decide) [.advance] ⟨trivial, trivial⟩ hfits
  exact ⟨by decide, by decide, ⟨trivial, trivial⟩, hfits, start, hstart,
    fun offers => (hrun offers).2.1⟩

end Prims
