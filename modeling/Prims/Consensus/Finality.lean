import Prims.Consensus.Votes
import Prims.Lib.Quorum

/-!
# Finality

What a finalized tally says. The approving stake of a tally is the stake of the validators that
hold an approving vote, so a finalized tally is a quorum of validators, whatever the order of the
votes and of the map that keeps them. Two finalized collectors for two blocks of one height
therefore share more than a third of the stake, and each shared validator has signed its own
slashing proof.

A collector does not look at what a vote is for. A finalized tally certifies one block in the
runs that never mix approvals of different blocks, and `mixedVotes` is a run that does.

## Main definitions

* `activeStake`: the exact sum of the stakes
* `VoteCollector.approval`: the block that a validator's collected vote approves
* `OneBlock`, `OneBlockRun`: a vote, and a run of votes, that keeps to the block approved so far

## Main results

* `tally_approveStake`: the approving stake of a tally is the stake of the approving validators
* `isQuorum_of_finalized`: a finalized tally is a quorum
* `conflicting_finality_is_slashable`: accountable safety
* `no_double_vote_iff_oneBlockPerHeight`: the votes that no proof can be built from
-/

namespace Prims

open Quorum

/-- The exact sum of the stakes of the validators. -/
def activeStake (validators : List Validator) : ℕ :=
  (validators.map fun v => v.stake.toNat).sum

/-- The stake of the validators with a property. -/
abbrev stakeOf (validators : List Validator) (p : Validator → Prop) [DecidablePred p] : ℕ :=
  weight (fun v => v.stake.toNat) validators p

/-- The height and the hash that the collected vote of `address` approves. -/
def VoteCollector.approval (c : VoteCollector) (address : Bytes) : Option (UInt64 × Bytes) :=
  (c.votesByVoter.lookup address).bind fun vote =>
    if vote.approve then some (vote.height, vote.blockHash) else none

theorem activeStake_cons (v : Validator) (l : List Validator) :
    activeStake (v :: l) = v.stake.toNat + activeStake l := by
  rw [activeStake, List.map_cons, List.sum_cons, activeStake]

theorem activeStake_le (validators : List Validator) :
    activeStake validators ≤ validators.length * 2 ^ 64 := by
  induction validators with
  | nil => exact Nat.le_refl 0
  | cons v l ih =>
    have hv := v.stake.toNat_lt
    rw [activeStake_cons, List.length_cons]
    omega

/-- The stakes of a slice, which has fewer than `2 ^ 64` entries, fit in 128 bits. -/
theorem activeStake_lt {validators : List Validator} (hlength : validators.length < 2 ^ 64) :
    activeStake validators < 2 ^ 128 := by
  calc activeStake validators ≤ validators.length * 2 ^ 64 := activeStake_le validators
    _ < 2 ^ 64 * 2 ^ 64 := Nat.mul_lt_mul_of_pos_right hlength (Nat.two_pow_pos 64)
    _ = 2 ^ 128 := rfl

/-- The active stake is added up modulo `2 ^ 64`. -/
theorem toNat_totalActiveStake_mod (validators : List Validator) :
    (totalActiveStake validators).toNat = activeStake validators % 2 ^ 64 := by
  induction validators with
  | nil => rfl
  -- a validator without stake is filtered out, and adds nothing to the exact sum either
  | cons v l ih =>
    have hcons := activeStake_cons v l
    by_cases hv : 0 < v.stake
    · have hsum : totalActiveStake (v :: l) = v.stake + totalActiveStake l := by
        simp [totalActiveStake, hv]
      rw [hsum, UInt64.toNat_add, ih, hcons, Nat.add_mod_mod]
    · have hsum : totalActiveStake (v :: l) = totalActiveStake l := by
        simp [totalActiveStake, hv]
      have hzero : v.stake.toNat = 0 := by
        simpa [UInt64.lt_iff_toNat_lt] using hv
      rw [hsum, ih, hcons, hzero, Nat.zero_add]

/-- When the active stake fits in 64 bits, adding it up does not wrap. -/
theorem toNat_totalActiveStake {validators : List Validator}
    (hT : activeStake validators < 2 ^ 64) :
    (totalActiveStake validators).toNat = activeStake validators := by
  rw [toNat_totalActiveStake_mod, Nat.mod_eq_of_lt hT]

/-! ## The stake behind a tally -/

section Tally

variable {validators : List Validator}

/-- The stake behind the approving votes of a list. -/
def approvingStake (validators : List Validator) (votes : List ConsensusVote) : ℕ :=
  ((votes.filter fun v => v.approve).map fun v =>
    ((validatorStake validators v.voter).getD 0).toNat).sum

/-- The stake behind the votes of one side. -/
def sideStake (validators : List Validator) (side : Bool) (votes : List ConsensusVote) : ℕ :=
  ((votes.filter fun v => v.approve = side).map fun v =>
    ((validatorStake validators v.voter).getD 0).toNat).sum

theorem approvingStake_eq_sideStake (votes : List ConsensusVote) :
    approvingStake validators votes = sideStake validators true votes := by
  rw [approvingStake, sideStake]
  simp only [Bool.decide_eq_true]

theorem sideStake_cons (side : Bool) (vote : ConsensusVote) (votes : List ConsensusVote) :
    sideStake validators side (vote :: votes) =
      (if vote.approve = side then ((validatorStake validators vote.voter).getD 0).toNat else 0) +
        sideStake validators side votes := by
  by_cases h : vote.approve = side <;> simp [sideStake, h]

theorem sideStake_perm (side : Bool) {votes votes' : List ConsensusVote} (h : votes.Perm votes') :
    sideStake validators side votes = sideStake validators side votes' :=
  ((h.filter _).map _).sum_eq

/-- The stake that a tally has for one side. -/
def VoteTally.stake (tally : VoteTally) (side : Bool) : UInt64 :=
  if side then tally.approveStake else tally.rejectStake

/-- A vote adds its stake to its own side. -/
theorem tallyVote_stake {vote : ConsensusVote} {t t' : VoteTally}
    (h : tallyVote validators t vote = .ok t') (side : Bool) :
    (t'.stake side).toNat = (t.stake side).toNat +
      if vote.approve = side then ((validatorStake validators vote.voter).getD 0).toNat else 0 := by
  unfold tallyVote at h
  split at h
  · cases h
  · next stake hs =>
    split at h
    · next ha =>
      split at h
      · cases h
      · next sum hadd =>
        cases h
        cases side <;> simp [VoteTally.stake, ha, hs, UInt64.checkedAdd_eq_some.mp hadd]
    · next ha =>
      split at h
      · cases h
      · next sum hadd =>
        cases h
        cases side <;> simp [VoteTally.stake, ha, hs, UInt64.checkedAdd_eq_some.mp hadd]

/-- A tally that returns adds up the stake behind the votes of each side. -/
theorem tallyVotes_stake {votes : List ConsensusVote} {t : VoteTally}
    (h : tallyVotes validators votes = .ok t) (side : Bool) :
    (t.stake side).toNat = sideStake validators side votes := by
  -- for any tally to start from, by induction on the votes that are left
  have hrun : ∀ (l : List ConsensusVote) (t₀ t : VoteTally),
      l.foldlM (tallyVote validators) t₀ = .ok t →
      (t.stake side).toNat = (t₀.stake side).toNat + sideStake validators side l := by
    intro l
    induction l with
    | nil =>
      intro t₀ t h
      cases h
      rfl
    | cons vote l ih =>
      intro t₀ t h
      rw [List.foldlM_cons] at h
      obtain ⟨t₁, h₁, h⟩ := Except.bind_eq_ok.mp h
      rw [ih t₁ t h, tallyVote_stake h₁ side, sideStake_cons, Nat.add_assoc]
  have hzero : ((({} : VoteTally).stake side).toNat) = 0 := by cases side <;> rfl
  rw [hrun votes {} t h, hzero, Nat.zero_add]

theorem tallyVotes_approveStake {votes : List ConsensusVote} {t : VoteTally}
    (h : tallyVotes validators votes = .ok t) :
    t.approveStake.toNat = approvingStake validators votes := by
  rw [approvingStake_eq_sideStake]
  exact tallyVotes_stake h true

/-- An active address belongs to a validator, whose stake the look-up returns. -/
theorem validatorStake_isSome {address : Bytes}
    (h : (validatorStake validators address).isSome) :
    ∃ v ∈ validators, v.address = address ∧ validatorStake validators address = some v.stake := by
  unfold validatorStake at h ⊢
  cases hf : validators.find? fun v => v.address = address ∧ 0 < v.stake with
  | none =>
    rw [hf] at h
    cases h
  | some v =>
    have hp := List.find?_some hf
    simp only [decide_eq_true_eq] at hp
    exact ⟨v, List.mem_of_find?_eq_some hf, hp.1, rfl⟩

/-- Votes of distinct known voters weigh as much as the validators they come from. -/
theorem sideStake_eq_stakeOf (hd : (validators.map Validator.address).Nodup) (side : Bool)
    {votes : List ConsensusVote} (hn : (votes.map ConsensusVote.voter).Nodup)
    (hk : ∀ vote ∈ votes, (validatorStake validators vote.voter).isSome) :
    sideStake validators side votes = stakeOf validators
      (fun v => ∃ vote ∈ votes, vote.voter = v.address ∧ vote.approve = side) := by
  induction votes with
  | nil => exact (weight_eq_zero (by simp)).symm
  | cons vote votes ih =>
    rw [List.map_cons, List.nodup_cons] at hn
    rw [List.forall_mem_cons] at hk
    rw [sideStake_cons, ih hn.2 hk.2]
    by_cases ha : vote.approve = side
    · obtain ⟨v, hv, hva, hs⟩ := validatorStake_isSome hk.1
      -- no later vote comes from this voter, so the two sets of validators are disjoint
      have hdisj : ∀ u ∈ validators, ¬ (u.address = v.address ∧
          ∃ w ∈ votes, w.voter = u.address ∧ w.approve = side) := by
        rintro u - ⟨hu, w, hw, hwu, -⟩
        exact hn.1 (List.mem_map.mpr ⟨w, hw, by rw [hwu, hu, hva]⟩)
      rw [if_pos ha, hs, Option.getD_some, ← weight_key (w := fun v => v.stake.toNat) hd hv,
        ← weight_or hdisj]
      refine weight_congr fun u _ => ?_
      have hu : vote.voter = u.address ↔ u.address = v.address := by rw [hva, eq_comm]
      simp only [List.exists_mem_cons_iff, ha, and_true, hu]
    · rw [if_neg ha, Nat.zero_add]
      exact weight_congr fun u _ => by simp [ha]

variable {P : Primitives}

theorem VoteCollector.WellFormed.approval_isSome {offered : List ConsensusVote}
    {c : VoteCollector} (h : c.WellFormed P validators offered) (address : Bytes) :
    (c.approval address).isSome ↔ ∃ vote ∈ c.votes, vote.voter = address ∧ vote.approve := by
  -- the map has at most one vote of a voter, so the look-up finds the vote that is meant
  unfold VoteCollector.approval
  cases hl : c.votesByVoter.lookup address with
  | none =>
    simp only [Option.bind_none, Option.isSome_none, Bool.false_eq_true, false_iff, not_exists,
      not_and]
    intro vote hv ha
    rw [h.lookup_eq_some.mpr ⟨hv, ha⟩] at hl
    cases hl
  | some vote =>
    have hvote := h.lookup_eq_some.mp hl
    constructor
    · intro hs
      exact ⟨vote, hvote.1, hvote.2, by by_contra ha; simp [ha] at hs⟩
    · rintro ⟨vote', hv', ha', happ⟩
      have heq := h.lookup_eq_some.mpr ⟨hv', ha'⟩
      rw [hl, Option.some.injEq] at heq
      simp [heq, happ]

/-- **The approving stake of a tally** is the stake of the validators that hold an approving
vote, in whatever order the votes are read. -/
theorem tally_approveStake (hd : (validators.map Validator.address).Nodup)
    {offered : List ConsensusVote} {c : VoteCollector} (hc : c.WellFormed P validators offered)
    {t : VoteTally} (ht : c.TallyResult validators (.ok t)) :
    t.approveStake.toNat = stakeOf validators (fun v => (c.approval v.address).isSome) := by
  obtain ⟨votes, hperm, ht⟩ := ht
  -- the votes come in the order of a hash map, which the sum does not depend on
  rw [tallyVotes_approveStake ht, approvingStake_eq_sideStake, sideStake_perm true hperm,
    sideStake_eq_stakeOf hd true hc.nodup_voters fun vote hv => (hc.acceptable hv).2.1]
  exact weight_congr fun v _ => (hc.approval_isSome v.address).symm

/-- **A finalized tally is a quorum** of approving validators. -/
theorem isQuorum_of_finalized (hd : (validators.map Validator.address).Nodup)
    (hT : activeStake validators < 2 ^ 64) {offered : List ConsensusVote} {c : VoteCollector}
    (hc : c.WellFormed P validators offered) {t : VoteTally}
    (ht : c.TallyResult validators (.ok t)) (hf : isBlockFinalized t validators) :
    IsQuorum (fun v => v.stake.toNat) validators (fun v => (c.approval v.address).isSome) := by
  have happ := tally_approveStake hd hc ht
  have htot := toNat_totalActiveStake hT
  unfold isBlockFinalized at hf
  simp only [htot] at hf
  split at hf
  · cases hf
  · rw [decide_eq_true_eq, happ] at hf
    rw [IsQuorum, Nat.mul_comm 2, Nat.mul_comm 3]
    exact hf

end Tally

/-! ## One block -/

section OneBlock

variable (P : Primitives) (validators : List Validator)

/-- What a finalized tally is to certify: one height and one hash that more than two thirds of
the active stake approves. -/
def CertifiesOneBlock (c : VoteCollector) : Prop :=
  ∀ t, c.TallyResult validators (.ok t) → isBlockFinalized t validators →
    ∃ block : UInt64 × Bytes,
      2 * activeStake validators <
        3 * stakeOf validators (fun v => c.approval v.address = some block)

/-- A vote that keeps to one block: if it approves and will be collected, every approval already
collected is for its block. -/
def OneBlock (c : VoteCollector) (vote : ConsensusVote) : Prop :=
  vote.approve → Acceptable P validators vote → vote.voter ∉ c.votesByVoter →
    ∀ held ∈ c.votes, held.approve → held.height = vote.height ∧ held.blockHash = vote.blockHash

/-- A run of votes each of which keeps to one block when it is offered. -/
def OneBlockRun : VoteCollector → List ConsensusVote → Prop
  | _, [] => True
  | c, vote :: votes =>
    OneBlock P validators c vote ∧ OneBlockRun (c.collectVote P vote validators).2 votes

/-- All approvals of a collector are for one block. -/
def VoteCollector.Uniform (c : VoteCollector) : Prop :=
  ∀ v ∈ c.votes, ∀ v' ∈ c.votes, v.approve → v'.approve →
    v.height = v'.height ∧ v.blockHash = v'.blockHash

variable {P validators}

theorem VoteCollector.Uniform.collectVote {c : VoteCollector} (hc : c.Uniform)
    {vote : ConsensusVote} (hv : OneBlock P validators c vote) :
    (c.collectVote P vote validators).2.Uniform := by
  rcases collectVote_cases P validators vote c with he | ⟨hacc, hnew, he⟩
  · rwa [he]
  · rw [he]
    intro v hmem v' hmem' ha ha'
    rw [votes_insert hnew, List.mem_cons] at hmem hmem'
    rcases hmem with rfl | hmem <;> rcases hmem' with rfl | hmem'
    · exact ⟨rfl, rfl⟩
    · have := hv ha hacc hnew v' hmem' ha'
      exact ⟨this.1.symm, this.2.symm⟩
    · exact hv ha' hacc hnew v hmem ha
    · exact hc v hmem v' hmem' ha ha'

/-- A run that keeps to one block collects approvals of one block. -/
theorem collectVotes_uniform {votes : List ConsensusVote}
    (h : OneBlockRun P validators .new votes) : (collectVotes P validators votes).Uniform := by
  have hrun : ∀ (l : List ConsensusVote) (c : VoteCollector), c.Uniform →
      OneBlockRun P validators c l →
      (l.foldl (fun c vote => (c.collectVote P vote validators).2) c).Uniform := by
    intro l
    induction l with
    | nil => exact fun c hc _ => hc
    | cons v l ih => exact fun c hc hl => ih _ (hc.collectVote hl.1) hl.2
  exact hrun votes _ (fun v hv => by simp [VoteCollector.new, VoteCollector.votes] at hv) h

/-- In a uniform collector, whoever approves something approves the block of any given
approval. -/
theorem VoteCollector.Uniform.approval_eq {offered : List ConsensusVote} {c : VoteCollector}
    (hc : c.Uniform) (hw : c.WellFormed P validators offered) {address address' : Bytes}
    {block : UInt64 × Bytes} (h : c.approval address = some block)
    (h' : (c.approval address').isSome) : c.approval address' = some block := by
  have hvote : ∀ {a b}, c.approval a = some b →
      ∃ v ∈ c.votes, v.approve = true ∧ b = (v.height, v.blockHash) := by
    intro a b hab
    obtain ⟨v, hl, hv⟩ := Option.bind_eq_some_iff.mp hab
    split_ifs at hv with happ
    exact ⟨v, (hw.lookup_eq_some.mp hl).1, happ, (Option.some.inj hv).symm⟩
  obtain ⟨block', h'⟩ := Option.isSome_iff_exists.mp h'
  obtain ⟨v, hv, ha, rfl⟩ := hvote h
  obtain ⟨v', hv', ha', rfl⟩ := hvote h'
  obtain ⟨hheight, hhash⟩ := hc v hv v' hv' ha ha'
  rw [h', hheight, hhash]

/-- **A run that keeps to one block certifies it**: in every collector such a run reaches, a
finalized tally is the approval of one block by more than two thirds of the active stake. -/
theorem oneBlockRun_certifies (P : Primitives) (validators : List Validator)
    (hd : (validators.map Validator.address).Nodup) (hT : activeStake validators < 2 ^ 64)
    (votes : List ConsensusVote) (hrun : OneBlockRun P validators .new votes) :
    CertifiesOneBlock validators (collectVotes P validators votes) := by
  intro t ht hf
  have hw := collectVotes_wellFormed P validators votes
  have hq := isQuorum_of_finalized hd hT hw ht hf
  -- a quorum is not empty, so some validator holds an approval, and it names the block
  have hpos : ∃ v ∈ validators, ((collectVotes P validators votes).approval v.address).isSome := by
    by_contra hnone
    push Not at hnone
    rw [IsQuorum, weight_eq_zero hnone] at hq
    omega
  obtain ⟨v, -, hv⟩ := hpos
  obtain ⟨block, hblock⟩ := Option.isSome_iff_exists.mp hv
  refine ⟨block, lt_of_lt_of_le hq (Nat.mul_le_mul_left 3 (weight_mono fun u _ hu => ?_))⟩
  exact (collectVotes_uniform hrun).approval_eq hw hblock hu

end OneBlock

/-! ### A run that mixes blocks

Two validators of equal stake, with the signing keys of 32 ones and 32 twos, and their signed
approvals at height 23: the first validator for both hashes, the second for the second one. -/

/-- The first validator, of stake 1. -/
def validatorA : Validator :=
  { address := beBytes 32 0x8a88e3dd7409f195fd52db2d3cba5d72ca6709bf1d94121bf3748801b40f6f5c
    stake := 1
    lockedUntil := 0 }

/-- The second validator, of stake 1. -/
def validatorB : Validator :=
  { address := beBytes 32 0x8139770ea87d175f56a35466c34c7ecccb8d8a91b4ee37a25df60f5b8fc9b394
    stake := 1
    lockedUntil := 0 }

/-- The two validators with stakes whose sum is `2 ^ 64 + 1`. -/
def largeValidators : List Validator :=
  [{ validatorA with stake := 2 ^ 63 }, { validatorB with stake := 2 ^ 63 + 1 }]

/-- The approval of the hash of 32 sevens by the first validator. -/
def voteA7 : ConsensusVote :=
  { height := 23
    blockHash := List.replicate 32 7
    voter := validatorA.address
    approve := true
    signature := beBytes 64
      0x5f48e585c83f9d637b15c860b81cf25b2a9f4da0dfc34c847a787d4f7f13bf9f6d22d3a46f12425d2e74f499315d640c6d8a9489a63d888c36e3e94c5ec6b70a }

/-- The approval of the hash of 32 eights by the first validator. -/
def voteA8 : ConsensusVote :=
  { height := 23
    blockHash := List.replicate 32 8
    voter := validatorA.address
    approve := true
    signature := beBytes 64
      0x79ad429549f877918459dc4cc59f1332aa6f6c882aacaa38133e49461ab70fdd214a1841f9b27e2abd7c5165b8e1318bb5634d13dadf22b85798a07128045b02 }

/-- The approval of the hash of 32 eights by the second validator. -/
def voteB8 : ConsensusVote :=
  { height := 23
    blockHash := List.replicate 32 8
    voter := validatorB.address
    approve := true
    signature := beBytes 64
      0x261a523183269af43f785115de2576cf2f31c0a0afb56d6eabcf4da42015e80a0031f1c6fbb3b6a37748dce0048482045db584a9aa7c4e456b60efa0e9e6e800 }

/-- The record of a signed vote. -/
def ConsensusVote.record (secretKey : Bytes32) (vote : ConsensusVote) : Option SignatureRecord := do
  let publicKey ← vote.voter.toVector? 32
  let signature ← vote.signature.toVector? 64
  return { secretKey, publicKey, message := unsignedVoteBytes vote, signature }

/-- The primitives with the three signatures above. -/
def voteSignatures : Primitives :=
  .recorded ([voteA7.record (.replicate 32 1), voteA8.record (.replicate 32 1),
    voteB8.record (.replicate 32 2)].filterMap id)

/-- **One collector finalizes without a block**: the first validator approves one hash, the second
the other, and the tally of the two exceeds two thirds although each hash has one half. -/
theorem mixedVotes_not_certifies :
    ([validatorA, validatorB].map Validator.address).Nodup ∧
      activeStake [validatorA, validatorB] < 2 ^ 64 ∧
      ¬ CertifiesOneBlock [validatorA, validatorB]
        (collectVotes voteSignatures [validatorA, validatorB] [voteA7, voteB8]) := by
  refine ⟨by decide, by decide, fun h => ?_⟩
  have htally : (collectVotes voteSignatures [validatorA, validatorB] [voteA7, voteB8]).TallyResult
      [validatorA, validatorB] (.ok ⟨2, 0, 2⟩) := ⟨_, List.Perm.refl _, by decide +kernel⟩
  obtain ⟨block, hblock⟩ := h _ htally (by decide)
  have hA : (collectVotes voteSignatures [validatorA, validatorB] [voteA7, voteB8]).approval
      validatorA.address = some (23, List.replicate 32 7) := by decide +kernel
  have hB : (collectVotes voteSignatures [validatorA, validatorB] [voteA7, voteB8]).approval
      validatorB.address = some (23, List.replicate 32 8) := by decide +kernel
  have htotal : activeStake [validatorA, validatorB] = 2 := by decide
  have hone : ∀ v ∈ [validatorA, validatorB], v.stake.toNat = 1 := by decide
  rw [htotal, stakeOf, weight_cons, weight_cons, weight_nil, hA, hB, hone _ (by simp),
    hone _ (by simp)] at hblock
  -- the two approvals differ, so at most one of them is for the block
  split_ifs at hblock with h₁ h₂
  · exact absurd (h₁.trans h₂.symm) (by decide)
  all_goals omega

/-- Both validators approve one block, which is finalized by all of the stake. -/
theorem voteA8_voteB8_certifies :
    OneBlockRun voteSignatures [validatorA, validatorB] .new [voteA8, voteB8] ∧
      (collectVotes voteSignatures [validatorA, validatorB] [voteA8, voteB8]).TallyResult
        [validatorA, validatorB] (.ok ⟨2, 0, 2⟩) ∧
      isBlockFinalized ⟨2, 0, 2⟩ [validatorA, validatorB] ∧
      CertifiesOneBlock [validatorA, validatorB]
        (collectVotes voteSignatures [validatorA, validatorB] [voteA8, voteB8]) := by
  have hheld : ((VoteCollector.new.collectVote voteSignatures voteA8
      [validatorA, validatorB]).2).votes = [voteA8] := by decide +kernel
  have hrun : OneBlockRun voteSignatures [validatorA, validatorB] .new [voteA8, voteB8] := by
    refine ⟨fun _ _ _ held hmem => ?_, fun _ _ _ held hmem _ => ?_, trivial⟩
    · simp [VoteCollector.new, VoteCollector.votes] at hmem
    · rw [hheld, List.mem_singleton] at hmem
      subst hmem
      exact ⟨rfl, rfl⟩
  exact ⟨hrun, ⟨_, List.Perm.refl _, by decide +kernel⟩, by decide,
    oneBlockRun_certifies voteSignatures [validatorA, validatorB] (by decide) (by decide)
      [voteA8, voteB8] hrun⟩

/-! ## Accountable safety -/

section Accountable

variable {P : Primitives} {validators : List Validator}

/-- Two verified votes of one voter at one height for two blocks are a double-vote proof. -/
theorem detectDoubleVote_ok {v₁ v₂ : ConsensusVote} (hvoter : v₁.voter = v₂.voter)
    (hheight : v₁.height = v₂.height) (hhash : v₁.blockHash ≠ v₂.blockHash)
    (hv₁ : verifyVote P v₁ = .ok true) (hv₂ : verifyVote P v₂ = .ok true) :
    detectDoubleVote P v₁ v₂ = .ok ⟨v₁, v₂⟩ := by
  simp [detectDoubleVote, hvoter, hheight, hhash, hv₁, hv₂]

theorem penaltyBps_in_range {penaltyBps : UInt16} (hlo : 1 ≤ penaltyBps)
    (hhi : penaltyBps ≤ 10000) : ¬ (penaltyBps = 0 ∨ 10000 < penaltyBps) := by
  rw [UInt16.le_iff_toNat_le] at hlo hhi
  rw [← UInt16.toNat_inj, UInt16.lt_iff_toNat_lt]
  simp only [UInt16.toNat_ofNat] at *
  omega

/-- A penalty in range and a proof against the validator are all that slashing asks for. -/
theorem slashValidatorForDoubleVote_isOk {validator : Validator} {proof : DoubleVoteProof}
    {penaltyBps : UInt16} (hv : validator.address = proof.firstVote.voter)
    (hlo : 1 ≤ penaltyBps) (hhi : penaltyBps ≤ 10000) :
    ∃ slashed, slashValidatorForDoubleVote validator proof penaltyBps = .ok slashed := by
  unfold slashValidatorForDoubleVote
  rw [if_neg (penaltyBps_in_range hlo hhi), if_neg (not_not.mpr hv)]
  split
  · exact ⟨_, rfl⟩
  · exact ⟨_, rfl⟩

/-- **Accountable safety**: when two collectors finalize two hashes of one height, the validators
that approved both hold more than a third of the active stake, and the two votes of each of them
are a proof that slashes it. -/
theorem conflicting_finality_is_slashable (P : Primitives) (validators : List Validator)
    (hd : (validators.map Validator.address).Nodup) (hT : activeStake validators < 2 ^ 64)
    (height : UInt64) (b₁ b₂ : Bytes) (hne : b₁ ≠ b₂) (votes₁ votes₂ : List ConsensusVote)
    (hvotes₁ : ∀ v ∈ votes₁, v.height = height ∧ v.blockHash = b₁)
    (hvotes₂ : ∀ v ∈ votes₂, v.height = height ∧ v.blockHash = b₂) (t₁ t₂ : VoteTally)
    (ht₁ : (collectVotes P validators votes₁).TallyResult validators (.ok t₁))
    (ht₂ : (collectVotes P validators votes₂).TallyResult validators (.ok t₂))
    (hf₁ : isBlockFinalized t₁ validators) (hf₂ : isBlockFinalized t₂ validators) :
    activeStake validators < 3 * stakeOf validators (fun v =>
        ((collectVotes P validators votes₁).approval v.address).isSome ∧
          ((collectVotes P validators votes₂).approval v.address).isSome) ∧
      ∀ v ∈ validators, ∀ v₁ v₂,
        (collectVotes P validators votes₁).votesByVoter.lookup v.address = some v₁ →
        (collectVotes P validators votes₂).votesByVoter.lookup v.address = some v₂ →
        v₁.approve → v₂.approve →
        ∃ proof, detectDoubleVote P v₁ v₂ = .ok proof ∧
          ∀ penaltyBps : UInt16, 1 ≤ penaltyBps → penaltyBps ≤ 10000 →
            ∃ slashed, slashValidatorForDoubleVote v proof penaltyBps = .ok slashed := by
  have hw₁ := collectVotes_wellFormed P validators votes₁
  have hw₂ := collectVotes_wellFormed P validators votes₂
  -- two quorums of the same validators overlap in more than a third
  refine ⟨(isQuorum_of_finalized hd hT hw₁ ht₁ hf₁).overlap
    (isQuorum_of_finalized hd hT hw₂ ht₂ hf₂), ?_⟩
  intro v _ v₁ v₂ hl₁ hl₂ _ _
  obtain ⟨hmem₁, hvoter₁⟩ := hw₁.lookup_eq_some.mp hl₁
  obtain ⟨hmem₂, hvoter₂⟩ := hw₂.lookup_eq_some.mp hl₂
  obtain ⟨hoff₁, -, hver₁⟩ := hw₁.acceptable hmem₁
  obtain ⟨hoff₂, -, hver₂⟩ := hw₂.acceptable hmem₂
  -- a collected vote was offered, so its height and its hash are those of its collector
  obtain ⟨hh₁, hb₁⟩ := hvotes₁ v₁ hoff₁
  obtain ⟨hh₂, hb₂⟩ := hvotes₂ v₂ hoff₂
  refine ⟨_, detectDoubleVote_ok (hvoter₁.trans hvoter₂.symm) (hh₁.trans hh₂.symm)
    (by rwa [hb₁, hb₂]) hver₁ hver₂, fun penaltyBps hlo hhi => ?_⟩
  exact slashValidatorForDoubleVote_isOk hvoter₁.symm hlo hhi

/-- The first validator, alone, finalizes both hashes, and is slashable for it. -/
theorem voteA_conflict_is_slashable :
    activeStake [validatorA] < 3 * stakeOf [validatorA] (fun v =>
        ((collectVotes voteSignatures [validatorA] [voteA7]).approval v.address).isSome ∧
          ((collectVotes voteSignatures [validatorA] [voteA8]).approval v.address).isSome) := by
  have htally₇ : (collectVotes voteSignatures [validatorA] [voteA7]).TallyResult [validatorA]
      (.ok ⟨1, 0, 1⟩) := ⟨_, List.Perm.refl _, by decide +kernel⟩
  have htally₈ : (collectVotes voteSignatures [validatorA] [voteA8]).TallyResult [validatorA]
      (.ok ⟨1, 0, 1⟩) := ⟨_, List.Perm.refl _, by decide +kernel⟩
  exact (conflicting_finality_is_slashable voteSignatures [validatorA] (by simp) (by decide) 23
    (List.replicate 32 7) (List.replicate 32 8) (by decide) [voteA7] [voteA8]
    (by decide) (by decide) _ _ htally₇ htally₈ (by decide) (by decide)).1

/-! ## Votes that cannot be slashed

The rule looks at the voter, the height and the hash of two votes, and not at what they say about
the block. A validator that rejects a block after it approved another one of that height has
therefore signed a proof against itself. -/

/-- **What slashing proves**: two verified votes of one voter at one height for two blocks. -/
theorem detectDoubleVote_eq_ok {v₁ v₂ : ConsensusVote} {proof : DoubleVoteProof} :
    detectDoubleVote P v₁ v₂ = .ok proof ↔
      v₁.voter = v₂.voter ∧ v₁.height = v₂.height ∧ v₁.blockHash ≠ v₂.blockHash ∧
        verifyVote P v₁ = .ok true ∧ verifyVote P v₂ = .ok true ∧ proof = ⟨v₁, v₂⟩ := by
  constructor
  · intro h
    unfold detectDoubleVote at h
    split_ifs at h with hvoter hheight hhash
    rw [not_not] at hvoter hheight
    split at h
    · next hv₁ =>
      split at h
      · next hv₂ =>
        cases h
        exact ⟨hvoter, hheight, hhash, hv₁, hv₂, rfl⟩
      · cases h
    · cases h
  · rintro ⟨hvoter, hheight, hhash, hv₁, hv₂, rfl⟩
    exact detectDoubleVote_ok hvoter hheight hhash hv₁ hv₂

/-- The votes name at most one block at each height, whether they approve or reject. -/
def OneBlockPerHeight (votes : Set ConsensusVote) : Prop :=
  ∀ v₁ ∈ votes, ∀ v₂ ∈ votes, v₁.height = v₂.height → v₁.blockHash = v₂.blockHash

/-- **Votes that cannot be slashed**: no proof against a validator can be built from its verified
votes, if and only if they name at most one block at each height. -/
theorem no_double_vote_iff_oneBlockPerHeight (P : Primitives) (voter : Bytes)
    (votes : Set ConsensusVote)
    (hvotes : ∀ v ∈ votes, v.voter = voter ∧ verifyVote P v = .ok true) :
    (∀ v₁ ∈ votes, ∀ v₂ ∈ votes, ∀ proof, detectDoubleVote P v₁ v₂ ≠ .ok proof) ↔
      OneBlockPerHeight votes := by
  constructor
  · intro hnone v₁ hmem₁ v₂ hmem₂ hheight
    by_contra hhash
    obtain ⟨hvoter₁, hverified₁⟩ := hvotes v₁ hmem₁
    obtain ⟨hvoter₂, hverified₂⟩ := hvotes v₂ hmem₂
    exact hnone v₁ hmem₁ v₂ hmem₂ _
      (detectDoubleVote_ok (hvoter₁.trans hvoter₂.symm) hheight hhash hverified₁ hverified₂)
  · intro hone v₁ hmem₁ v₂ hmem₂ proof hproof
    obtain ⟨-, hheight, hhash, -⟩ := detectDoubleVote_eq_ok.mp hproof
    exact hhash (hone v₁ hmem₁ v₂ hmem₂ hheight)

/-- The rejection of the hash of 32 eights by the first validator. -/
def rejectA8 : ConsensusVote :=
  { height := 23
    blockHash := List.replicate 32 8
    voter := validatorA.address
    approve := false
    signature := beBytes 64
      0xb1ff8757a398c290744ed43a09412d8429ac352f5c15680d346d3c6fb6ce6ca6ccdec90412b8d057b49f00d39f65ca2d754e81592b9be005fc99ca5afa765a06 }

/-- The primitives with the signatures of the first validator. -/
def rejectSignatures : Primitives :=
  .recorded ([voteA7.record (.replicate 32 1), voteA8.record (.replicate 32 1),
    rejectA8.record (.replicate 32 1)].filterMap id)

/-- An approval and a rejection of one block prove nothing. -/
theorem voteA8_rejectA8_no_double_vote :
    (∀ v ∈ ({voteA8, rejectA8} : Set ConsensusVote),
      v.voter = validatorA.address ∧ verifyVote rejectSignatures v = .ok true) ∧
    ∀ v₁ ∈ ({voteA8, rejectA8} : Set ConsensusVote),
      ∀ v₂ ∈ ({voteA8, rejectA8} : Set ConsensusVote),
        ∀ proof, detectDoubleVote rejectSignatures v₁ v₂ ≠ .ok proof := by
  have hvotes : ∀ v ∈ ({voteA8, rejectA8} : Set ConsensusVote),
      v.voter = validatorA.address ∧ verifyVote rejectSignatures v = .ok true := by
    rintro v (rfl | rfl)
    · exact ⟨rfl, by decide +kernel⟩
    · exact ⟨rfl, by decide +kernel⟩
  have hhash : ∀ v ∈ ({voteA8, rejectA8} : Set ConsensusVote),
      v.blockHash = List.replicate 32 8 := by
    rintro v (rfl | rfl)
    · rfl
    · rfl
  refine ⟨hvotes, (no_double_vote_iff_oneBlockPerHeight rejectSignatures validatorA.address _
    hvotes).mpr fun v₁ hmem₁ v₂ hmem₂ _ => ?_⟩
  rw [hhash v₁ hmem₁, hhash v₂ hmem₂]

/-- **A rejection is slashed**: the first validator approves one block and rejects another one of
the same height, and the two votes are a proof against it. -/
theorem voteA7_rejectA8_double_vote :
    voteA7.approve = true ∧ rejectA8.approve = false ∧
      verifyVote rejectSignatures voteA7 = .ok true ∧
      verifyVote rejectSignatures rejectA8 = .ok true ∧
      detectDoubleVote rejectSignatures voteA7 rejectA8 = .ok ⟨voteA7, rejectA8⟩ := by
  have hverified : verifyVote rejectSignatures voteA7 = .ok true := by decide +kernel
  have hverified' : verifyVote rejectSignatures rejectA8 = .ok true := by decide +kernel
  exact ⟨rfl, rfl, hverified, hverified', detectDoubleVote_ok rfl rfl (by decide) hverified
    hverified'⟩

end Accountable

end Prims
