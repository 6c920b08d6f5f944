import Prims.Consensus.Finality
import Prims.Lib.Apportion
import Prims.Lib.Table

/-!
# Rewards

The rewards of a block: the fees of its transactions and the inflation since the block before are
split among the validators that have voted, by their stakes. Every voter gets its share rounded
down, and what the rounding leaves goes to the first voters in the order of the addresses.

The fees and the pool are added up with checks. The active stake, the product from which the
inflation comes and its conversion to 64 bits are not checked, and wrap.

## Main definitions

* `totalTransactionFees`, `annualizedInflationReward`: the two parts of the pool
* `votingParticipants`, `distributeVotingRewards`: the voters, and their rewards
* `splitPool`: the shares of the voters, and one more for the first of them
* `exactInflation`: the inflation in unbounded arithmetic

## Main results

* `sum_splitPool`, `forall₂_splitPool`: the pool is used up, in fair shares
* `distributeVotingRewards_eq_ok`: when there are rewards, and what they are
* `rewards_split_pool`: the rewards are the pool, in fair shares
* `annualizedInflationReward_eq_iff`: when the inflation is the exact one
* `rewards_exact_iff`: when the rewards add up to the exact pool
-/

namespace Prims

open Apportion

/-- `ANNUAL_INFLATION_BPS` -/
def annualInflationBps : UInt64 := 200

/-- `SECONDS_PER_YEAR` -/
def secondsPerYear : UInt64 := 31536000

structure ValidatorReward where
  validator : Bytes
  amount : UInt64
  deriving DecidableEq, Repr

inductive RewardError where
  | feeOverflow
  | rewardOverflow
  | noVotingStake
  deriving DecidableEq, Repr

def totalTransactionFees (transactions : List Transaction) : Except RewardError UInt64 :=
  transactions.foldlM (fun acc tx => (acc.checkedAdd tx.fee).okOr .feeOverflow) 0

/-- The products are taken in 128 bits, where a release build wraps, and the conversion back to 64
bits drops what does not fit. -/
def annualizedInflationReward (totalStake elapsedSecs : UInt64) : UInt64 :=
  if totalStake = 0 ∨ elapsedSecs = 0 then 0
  else UInt64.ofNat
    (totalStake.toNat * annualInflationBps.toNat % 2 ^ 128 * elapsedSecs.toNat % 2 ^ 128 / 10000 /
      secondsPerYear.toNat)

/-- The validators with stake that have voted, in the order of their addresses. -/
def votingParticipants (validators : List Validator) (collector : VoteCollector) : List Validator :=
  sortByKey compare Validator.address (validators.filter fun validator =>
    0 < validator.stake ∧ validator.address ∈ collector.votesByVoter)

/-- The loop over the voters: the rewards so far, and what they are together. -/
def addShare (rewardPool : UInt64) (votingStake : ℕ) (state : List ValidatorReward × UInt64)
    (validator : Validator) : Except RewardError (List ValidatorReward × UInt64) := do
  let amount := UInt64.ofNat
    (rewardPool.toNat * validator.stake.toNat % 2 ^ 128 / votingStake)
  let distributed ← (state.2.checkedAdd amount).okOr .rewardOverflow
  return (state.1 ++ [⟨validator.address, amount⟩], distributed)

/-- One more for a voter that is among the first. -/
def ValidatorReward.increment (reward : ValidatorReward) : ValidatorReward :=
  { reward with amount := reward.amount + 1 }

/-- **The rewards of a block.** The voting stake is added up in 128 bits. -/
def distributeVotingRewards (validators : List Validator) (collector : VoteCollector)
    (transactions : List Transaction) (elapsedSecs : UInt64) :
    Except RewardError (List ValidatorReward) := do
  let fees ← totalTransactionFees transactions
  let inflation := annualizedInflationReward (totalActiveStake validators) elapsedSecs
  let rewardPool ← (fees.checkedAdd inflation).okOr .rewardOverflow
  let participants := votingParticipants validators collector
  let votingStake := (participants.map fun validator => validator.stake.toNat).sum % 2 ^ 128
  ensure (votingStake ≠ 0) .noVotingStake
  let (rewards, distributed) ← participants.foldlM (addShare rewardPool votingStake) ([], 0)
  let remainder := rewardPool - distributed
  return topUp ValidatorReward.increment remainder.toNat rewards

/-! ## The fees -/

/-- **The fees** are their exact sum, or there are too many of them. -/
theorem totalTransactionFees_eq (transactions : List Transaction) :
    totalTransactionFees transactions =
      if (transactions.map fun tx => tx.fee.toNat).sum < 2 ^ 64 then
        .ok (UInt64.ofNat (transactions.map fun tx => tx.fee.toNat).sum)
      else .error .feeOverflow := by
  -- for any sum to start from, by induction on the transactions that are left
  have hrun : ∀ (l : List Transaction) (acc : UInt64),
      l.foldlM (fun acc tx => (acc.checkedAdd tx.fee).okOr RewardError.feeOverflow) acc =
        if acc.toNat + (l.map fun tx => tx.fee.toNat).sum < 2 ^ 64 then
          .ok (UInt64.ofNat (acc.toNat + (l.map fun tx => tx.fee.toNat).sum))
        else .error .feeOverflow := by
    intro l
    induction l with
    | nil =>
      intro acc
      rw [List.map_nil, List.sum_nil, Nat.add_zero, if_pos acc.toNat_lt, UInt64.ofNat_toNat]
      rfl
    | cons tx l ih =>
      intro acc
      rw [List.foldlM_cons, List.map_cons, List.sum_cons]
      cases hadd : acc.checkedAdd tx.fee with
      | none =>
        have hge := UInt64.checkedAdd_eq_none.mp hadd
        rw [if_neg (by omega)]
        rfl
      | some sum =>
        rw [← Nat.add_assoc, ← UInt64.checkedAdd_eq_some.mp hadd]
        exact ih sum
  rw [totalTransactionFees, hrun]
  simp only [UInt64.toNat_zero, Nat.zero_add]

theorem totalTransactionFees_eq_ok {transactions : List Transaction} {fees : UInt64} :
    totalTransactionFees transactions = .ok fees ↔
      fees.toNat = (transactions.map fun tx => tx.fee.toNat).sum := by
  rw [totalTransactionFees_eq]
  split
  · next h =>
    rw [Except.ok.injEq, ← UInt64.toNat_inj, UInt64.toNat_ofNat_of_lt' h, eq_comm]
  · next h =>
    have hlt := fees.toNat_lt
    simp only [reduceCtorEq, false_iff]
    omega

/-! ## The shares -/

/-- The share of a voter. -/
def shareOf (rewardPool : UInt64) (votingStake : ℕ) (validator : Validator) : ValidatorReward :=
  ⟨validator.address,
    UInt64.ofNat (share rewardPool.toNat votingStake validator.stake.toNat)⟩

/-- The shares of the voters together. -/
def sumShares (rewardPool : UInt64) (votingStake : ℕ) (participants : List Validator) : ℕ :=
  (participants.map fun validator =>
    share rewardPool.toNat votingStake validator.stake.toNat).sum

theorem sumShares_cons (rewardPool : UInt64) (votingStake : ℕ) (validator : Validator)
    (participants : List Validator) :
    sumShares rewardPool votingStake (validator :: participants) =
      share rewardPool.toNat votingStake validator.stake.toNat +
        sumShares rewardPool votingStake participants := by
  rw [sumShares, List.map_cons, List.sum_cons, sumShares]

/-- **The loop does not fail** as long as the shares together fit in 64 bits. -/
theorem foldlM_addShare {rewardPool : UInt64} {votingStake : ℕ} (participants : List Validator)
    (rewards : List ValidatorReward) (before : UInt64) {distributed : UInt64}
    (h : distributed.toNat = before.toNat + sumShares rewardPool votingStake participants) :
    participants.foldlM (addShare rewardPool votingStake) (rewards, before) =
      .ok (rewards ++ participants.map (shareOf rewardPool votingStake), distributed) := by
  induction participants generalizing rewards before with
  | nil =>
    rw [List.map_nil, List.append_nil, UInt64.toNat_inj.mp h]
    rfl
  | cons validator participants ih =>
    rw [sumShares_cons] at h
    have hlt := distributed.toNat_lt
    obtain ⟨amount, hamount⟩ : ∃ amount : UInt64, amount.toNat =
        share rewardPool.toNat votingStake validator.stake.toNat :=
      ⟨_, UInt64.toNat_ofNat_of_lt' (Nat.lt_of_le_of_lt (by omega) hlt)⟩
    obtain ⟨next, hnext⟩ : ∃ next : UInt64, next.toNat = before.toNat + amount.toNat :=
      ⟨_, UInt64.toNat_ofNat_of_lt' (Nat.lt_of_le_of_lt (by omega) hlt)⟩
    have hproduct : rewardPool.toNat * validator.stake.toNat < 2 ^ 128 :=
      Nat.lt_of_lt_of_eq (Nat.mul_lt_mul'' rewardPool.toNat_lt validator.stake.toNat_lt) rfl
    have hshare : UInt64.ofNat (rewardPool.toNat * validator.stake.toNat % 2 ^ 128 / votingStake) =
        amount := by
      rw [Nat.mod_eq_of_lt hproduct, ← UInt64.ofNat_toNat (x := amount), hamount]
      rfl
    have hshareOf : shareOf rewardPool votingStake validator = ⟨validator.address, amount⟩ := by
      rw [shareOf, ← hamount, UInt64.ofNat_toNat]
    have hstep : addShare rewardPool votingStake (rewards, before) validator =
        .ok (rewards ++ [⟨validator.address, amount⟩], next) := by
      rw [addShare, hshare, UInt64.checkedAdd_eq_some.mpr hnext]
      rfl
    rw [List.foldlM_cons, hstep, List.map_cons, hshareOf]
    refine (ih _ next (by omega)).trans ?_
    rw [List.append_assoc]
    rfl

/-! ## The split of the pool -/

/-- The pool split among the voters: their shares, and one more each for the first of them. -/
def splitPool (rewardPool : UInt64) (participants : List Validator) : List ValidatorReward :=
  topUp ValidatorReward.increment
    (rewardPool.toNat - sumShares rewardPool (activeStake participants) participants)
    (participants.map (shareOf rewardPool (activeStake participants)))

section Split

variable (rewardPool : UInt64) {participants : List Validator}

/-- The shares of the voters are at most the pool. -/
theorem sumShares_le (hpos : 0 < activeStake participants) :
    sumShares rewardPool (activeStake participants) participants ≤ rewardPool.toNat :=
  sum_share_le (w := fun validator : Validator => validator.stake.toNat) hpos

/-- **The loop over the voters** returns their shares, which are at most the pool together. -/
theorem foldlM_participants (hpos : 0 < activeStake participants) : ∃ distributed : UInt64,
    distributed.toNat = sumShares rewardPool (activeStake participants) participants ∧
      distributed ≤ rewardPool ∧
      participants.foldlM (addShare rewardPool (activeStake participants)) ([], 0) =
        .ok (participants.map (shareOf rewardPool (activeStake participants)), distributed) := by
  have hle := sumShares_le rewardPool hpos
  obtain ⟨distributed, h⟩ : ∃ distributed : UInt64, distributed.toNat =
      sumShares rewardPool (activeStake participants) participants :=
    ⟨_, UInt64.toNat_ofNat_of_lt' (Nat.lt_of_le_of_lt hle rewardPool.toNat_lt)⟩
  refine ⟨distributed, h, UInt64.le_iff_toNat_le.mpr (h ▸ hle), ?_⟩
  have hstart : distributed.toNat =
      (0 : UInt64).toNat + sumShares rewardPool (activeStake participants) participants := by
    rw [h, UInt64.toNat_zero, Nat.zero_add]
  rw [foldlM_addShare _ [] 0 hstart, List.nil_append]

/-- The share of a voter fits in 64 bits. -/
theorem toNat_shareOf {validator : Validator} (hmem : validator ∈ participants) :
    (shareOf rewardPool (activeStake participants) validator).amount.toNat =
      share rewardPool.toNat (activeStake participants) validator.stake.toNat := by
  have hle : share rewardPool.toNat (activeStake participants) validator.stake.toNat ≤
      rewardPool.toNat :=
    share_le (List.single_le_sum (fun _ _ => Nat.zero_le _) _ (List.mem_map_of_mem hmem))
  exact UInt64.toNat_ofNat_of_lt' (Nat.lt_of_le_of_lt hle rewardPool.toNat_lt)

/-- Where the shares leave something, a share can take one more. -/
theorem toNat_increment_shareOf {validator : Validator} (hmem : validator ∈ participants)
    (hrest : 0 < rewardPool.toNat -
      sumShares rewardPool (activeStake participants) participants) :
    (shareOf rewardPool (activeStake participants) validator).increment.amount.toNat =
      share rewardPool.toNat (activeStake participants) validator.stake.toNat + 1 := by
  have hle : share rewardPool.toNat (activeStake participants) validator.stake.toNat ≤
      sumShares rewardPool (activeStake participants) participants :=
    List.single_le_sum (fun _ _ => Nat.zero_le _) _ (List.mem_map.mpr ⟨validator, hmem, rfl⟩)
  have hlt := rewardPool.toNat_lt
  rw [ValidatorReward.increment, UInt64.toNat_add, toNat_shareOf rewardPool hmem]
  exact Nat.mod_eq_of_lt (by rw [UInt64.toNat_one]; omega)

theorem sum_shareOf :
    ((participants.map (shareOf rewardPool (activeStake participants))).map
      fun reward => reward.amount.toNat).sum =
      sumShares rewardPool (activeStake participants) participants := by
  rw [List.map_map]
  exact congrArg List.sum (List.map_congr_left fun validator hmem =>
    toNat_shareOf rewardPool hmem)

/-- **The rewards are the pool.** -/
theorem sum_splitPool (hpos : 0 < activeStake participants) :
    ((splitPool rewardPool participants).map fun reward => reward.amount.toNat).sum =
      rewardPool.toNat := by
  have hrest : rewardPool.toNat - sumShares rewardPool (activeStake participants) participants <
      participants.length := sub_sum_share_lt hpos
  rw [splitPool, sum_topUp (fun hrest reward hreward => ?_)
    (by rw [List.length_map]; exact hrest.le), sum_shareOf]
  · exact Nat.add_sub_of_le (sumShares_le rewardPool hpos)
  · obtain ⟨validator, hmem, rfl⟩ := List.mem_map.mp hreward
    rw [toNat_increment_shareOf rewardPool hmem hrest, toNat_shareOf rewardPool hmem]

/-- **The rewards are fair**: every voter has its share rounded down, or one more. -/
theorem forall₂_splitPool (participants : List Validator) :
    List.Forall₂ (fun validator reward => reward.validator = validator.address ∧
        (reward.amount.toNat =
            share rewardPool.toNat (activeStake participants) validator.stake.toNat ∨
          reward.amount.toNat =
            share rewardPool.toNat (activeStake participants) validator.stake.toNat + 1))
      participants (splitPool rewardPool participants) := by
  have hshares : List.Forall₂ (fun validator reward => validator ∈ participants ∧
        reward = shareOf rewardPool (activeStake participants) validator)
      participants (participants.map (shareOf rewardPool (activeStake participants))) := by
    rw [List.forall₂_map_right_iff, List.forall₂_same]
    exact fun validator hmem => ⟨hmem, rfl⟩
  refine forall₂_topUp hshares ?_ ?_
  · rintro validator reward ⟨hmem, rfl⟩
    exact ⟨rfl, .inl (toNat_shareOf rewardPool hmem)⟩
  · rintro hrest validator reward ⟨hmem, rfl⟩
    exact ⟨rfl, .inr (toNat_increment_shareOf rewardPool hmem hrest)⟩

end Split

/-! ## The distribution -/

/-- The exact stake of the voters. -/
def exactVotingStake (validators : List Validator) (collector : VoteCollector) : ℕ :=
  ((votingParticipants validators collector).map fun validator => validator.stake.toNat).sum

theorem votingParticipants_perm (validators : List Validator) (collector : VoteCollector) :
    (votingParticipants validators collector).Perm (validators.filter fun validator =>
      0 < validator.stake ∧ validator.address ∈ collector.votesByVoter) :=
  sortByKey_perm _ _ _

theorem exactVotingStake_le (validators : List Validator) (collector : VoteCollector) :
    exactVotingStake validators collector ≤ activeStake validators := by
  rw [exactVotingStake, ((votingParticipants_perm validators collector).map _).sum_eq]
  exact Quorum.weight_le_sum

section Distribution

variable {validators : List Validator} {collector : VoteCollector}
  {transactions : List Transaction} {elapsedSecs : UInt64}

/-- The distribution without its loop. -/
theorem distributeVotingRewards_eq (hfits : exactVotingStake validators collector < 2 ^ 128) :
    distributeVotingRewards validators collector transactions elapsedSecs = do
      let fees ← totalTransactionFees transactions
      let rewardPool ← (fees.checkedAdd (annualizedInflationReward (totalActiveStake validators)
        elapsedSecs)).okOr .rewardOverflow
      ensure (exactVotingStake validators collector ≠ 0) .noVotingStake
      return splitPool rewardPool (votingParticipants validators collector) := by
  unfold distributeVotingRewards
  refine bind_congr fun fees => bind_congr fun rewardPool => ?_
  have hstake : ((votingParticipants validators collector).map fun validator =>
      validator.stake.toNat).sum % 2 ^ 128 =
        activeStake (votingParticipants validators collector) := Nat.mod_eq_of_lt hfits
  simp only [hstake]
  show (ensure (exactVotingStake validators collector ≠ 0) RewardError.noVotingStake >>= _) = _
  by_cases hzero : exactVotingStake validators collector = 0
  · rw [ensure, if_neg (not_not.mpr hzero)]
    rfl
  · obtain ⟨distributed, hsum, hle, hloop⟩ :=
      foldlM_participants rewardPool (Nat.pos_of_ne_zero hzero)
    rw [ensure, if_pos hzero, hloop, splitPool, ← hsum, ← UInt64.toNat_sub_of_le _ _ hle]
    rfl

/-- **When there are rewards**, and what they are: there is a pool and a voter with stake, and the
pool is split among the voters. -/
theorem distributeVotingRewards_eq_ok (hfits : exactVotingStake validators collector < 2 ^ 128)
    {rewards : List ValidatorReward} :
    distributeVotingRewards validators collector transactions elapsedSecs = .ok rewards ↔
      ∃ fees rewardPool, totalTransactionFees transactions = .ok fees ∧
        rewardPool.toNat = fees.toNat +
          (annualizedInflationReward (totalActiveStake validators) elapsedSecs).toNat ∧
        0 < exactVotingStake validators collector ∧
        rewards = splitPool rewardPool (votingParticipants validators collector) := by
  rw [distributeVotingRewards_eq hfits]
  simp only [Except.bind_eq_ok, Option.okOr_eq_ok, UInt64.checkedAdd_eq_some, ensure_eq_ok]
  constructor
  · rintro ⟨fees, hfees, rewardPool, hpool, -, hpos, h⟩
    cases h
    exact ⟨fees, rewardPool, hfees, hpool, Nat.pos_of_ne_zero hpos, rfl⟩
  · rintro ⟨fees, rewardPool, hfees, hpool, hpos, rfl⟩
    exact ⟨fees, hfees, rewardPool, hpool, (), hpos.ne', rfl⟩

/-- The only overflow of the rewards is that of the pool. -/
theorem distributeVotingRewards_eq_rewardOverflow
    (hfits : exactVotingStake validators collector < 2 ^ 128) :
    distributeVotingRewards validators collector transactions elapsedSecs =
        .error .rewardOverflow ↔
      ∃ fees, totalTransactionFees transactions = .ok fees ∧ 2 ^ 64 ≤ fees.toNat +
        (annualizedInflationReward (totalActiveStake validators) elapsedSecs).toNat := by
  rw [distributeVotingRewards_eq hfits]
  cases hfees : totalTransactionFees transactions with
  | error e =>
    -- the fees have an error of their own
    rw [totalTransactionFees_eq] at hfees
    split at hfees
    · cases hfees
    · cases hfees
      simp [bind, Except.bind]
  | ok fees =>
    simp only [Except.ok.injEq, exists_eq_left', ← UInt64.checkedAdd_eq_none]
    show ((fees.checkedAdd _).okOr _ >>= fun _ => _) = _ ↔ _
    cases fees.checkedAdd
        (annualizedInflationReward (totalActiveStake validators) elapsedSecs) with
    | none => exact iff_of_true rfl rfl
    | some rewardPool =>
      by_cases hzero : exactVotingStake validators collector = 0
      · simp [bind, Except.bind, Option.okOr, ensure, hzero]
      · simp [bind, Except.bind, Option.okOr, ensure, hzero, pure, Except.pure]

end Distribution

/-! ## The order of the validators -/

theorem activeStake_eq_of_perm {validators supplied : List Validator}
    (hperm : supplied.Perm validators) : activeStake supplied = activeStake validators :=
  (hperm.map _).sum_eq

/-- Without a repeated address, the order of the validators does not matter for the voters. -/
theorem votingParticipants_eq_of_perm {validators supplied : List Validator}
    (hdistinct : (validators.map Validator.address).Nodup) (hperm : supplied.Perm validators)
    (collector : VoteCollector) :
    votingParticipants supplied collector = votingParticipants validators collector := by
  refine sortByKey_eq_of_perm compare Validator.address (hperm.filter _) ?_
  exact (List.filter_sublist.map _).nodup ((hperm.map _).nodup_iff.mpr hdistinct)

/-- **Rewards split the pool exactly and fairly.** When the active stake fits in 64 bits, the
rewards go to the voters with stake in the order of their addresses, they add up to the fees and the
inflation, and each is the voter's share rounded down or one more. The loop over the voters never
overflows and never distributes more than the pool. The order of the validators does not matter
where no address is repeated. -/
theorem rewards_split_pool (validators : List Validator) (hstake : activeStake validators < 2 ^ 64)
    (collector : VoteCollector) (transactions : List Transaction) (elapsedSecs : UInt64) :
    let participants := votingParticipants validators collector
    let votingStake := (participants.map fun validator => validator.stake.toNat).sum
    (participants.Perm (validators.filter fun validator =>
        0 < validator.stake ∧ validator.address ∈ collector.votesByVoter) ∧
      participants.Pairwise fun left right => (compare left.address right.address).isLE) ∧
    (∀ rewards,
      distributeVotingRewards validators collector transactions elapsedSecs = .ok rewards →
      ∃ fees rewardPool shares distributed, totalTransactionFees transactions = .ok fees ∧
        rewardPool.toNat = fees.toNat +
          (annualizedInflationReward (totalActiveStake validators) elapsedSecs).toNat ∧
        (rewards.map fun reward => reward.amount.toNat).sum = rewardPool.toNat ∧
        List.Forall₂ (fun validator reward => reward.validator = validator.address ∧
            (reward.amount.toNat =
                rewardPool.toNat * validator.stake.toNat / votingStake ∨
              reward.amount.toNat =
                rewardPool.toNat * validator.stake.toNat / votingStake + 1))
          participants rewards ∧
        participants.foldlM (addShare rewardPool votingStake) ([], 0) =
          .ok (shares, distributed) ∧
        distributed.toNat = (shares.map fun reward => reward.amount.toNat).sum ∧
        distributed ≤ rewardPool) ∧
    (distributeVotingRewards validators collector transactions elapsedSecs =
        .error .rewardOverflow ↔
      ∃ fees, totalTransactionFees transactions = .ok fees ∧ 2 ^ 64 ≤ fees.toNat +
        (annualizedInflationReward (totalActiveStake validators) elapsedSecs).toNat) ∧
    ((validators.map Validator.address).Nodup → ∀ supplied, supplied.Perm validators →
      distributeVotingRewards supplied collector transactions elapsedSecs =
        distributeVotingRewards validators collector transactions elapsedSecs) := by
  intro participants votingStake
  have hfits : exactVotingStake validators collector < 2 ^ 128 :=
    Nat.lt_of_le_of_lt (exactVotingStake_le validators collector)
      (hstake.trans (Nat.pow_lt_pow_right (by decide) (by decide)))
  refine ⟨⟨votingParticipants_perm validators collector, pairwise_sortByKey _ _ _⟩,
    fun rewards h => ?_, distributeVotingRewards_eq_rewardOverflow hfits,
    fun hdistinct supplied hperm => ?_⟩
  · obtain ⟨fees, rewardPool, hfees, hpool, hpos, rfl⟩ :=
      (distributeVotingRewards_eq_ok hfits).mp h
    obtain ⟨distributed, hsum, hle, hloop⟩ := foldlM_participants rewardPool hpos
    refine ⟨fees, rewardPool, _, distributed, hfees, hpool, sum_splitPool rewardPool hpos,
      forall₂_splitPool rewardPool _, hloop, ?_, hle⟩
    rw [hsum, sum_shareOf]
  · have hactive : totalActiveStake supplied = totalActiveStake validators := by
      rw [← UInt64.toNat_inj, toNat_totalActiveStake_mod, toNat_totalActiveStake_mod,
        activeStake_eq_of_perm hperm]
    rw [distributeVotingRewards, distributeVotingRewards, hactive,
      votingParticipants_eq_of_perm hdistinct hperm]

/-- The votes of the two validators. -/
def sampleCollector : VoteCollector :=
  collectVotes voteSignatures [validatorB, validatorA] [voteA7, voteB8]

theorem votingParticipants_sampleCollector :
    votingParticipants [validatorB, validatorA] sampleCollector = [validatorB, validatorA] := by
  have hfilter : ([validatorB, validatorA].filter fun validator =>
      0 < validator.stake ∧ validator.address ∈ sampleCollector.votesByVoter) =
        [validatorB, validatorA] := by decide +kernel
  rw [votingParticipants, hfilter]
  exact List.mergeSort_of_pairwise (by decide)

/-- The inflation of 75 years on a stake of 2 is 3, which two voters share as 2 and 1. -/
theorem distributeVotingRewards_sampleCollector :
    distributeVotingRewards [validatorB, validatorA] sampleCollector [] 2365200000 =
      .ok [⟨validatorB.address, 2⟩, ⟨validatorA.address, 1⟩] := by
  have hstake : exactVotingStake [validatorB, validatorA] sampleCollector = 2 := by
    rw [exactVotingStake, votingParticipants_sampleCollector]
    rfl
  rw [distributeVotingRewards_eq_ok (by rw [hstake]; decide)]
  refine ⟨0, 3, rfl, by decide, by rw [hstake]; decide, ?_⟩
  rw [votingParticipants_sampleCollector]
  decide

theorem sampleCollector_splits_pool :
    activeStake [validatorB, validatorA] < 2 ^ 64 ∧
      ∃ fees rewardPool : UInt64, totalTransactionFees [] = .ok fees ∧
        rewardPool.toNat = fees.toNat + (annualizedInflationReward
          (totalActiveStake [validatorB, validatorA]) 2365200000).toNat ∧
        (([⟨validatorB.address, 2⟩, ⟨validatorA.address, 1⟩] : List ValidatorReward).map
          fun reward => reward.amount.toNat).sum = rewardPool.toNat := by
  have hstake : activeStake [validatorB, validatorA] < 2 ^ 64 := by decide
  obtain ⟨fees, rewardPool, -, -, hfees, hpool, hsum, -⟩ :=
    (rewards_split_pool [validatorB, validatorA] hstake sampleCollector [] 2365200000).2.1 _
      distributeVotingRewards_sampleCollector
  exact ⟨hstake, fees, rewardPool, hfees, hpool, hsum⟩

/-! ## The exact pool -/

/-- The inflation in unbounded arithmetic. -/
def exactInflation (stake elapsed : ℕ) : ℕ :=
  stake * annualInflationBps.toNat * elapsed / (10000 * secondsPerYear.toNat)

theorem toNat_annualizedInflationReward (totalStake elapsedSecs : UInt64) :
    (annualizedInflationReward totalStake elapsedSecs).toNat =
      totalStake.toNat * annualInflationBps.toNat * elapsedSecs.toNat % 2 ^ 128 /
        (10000 * secondsPerYear.toNat) % 2 ^ 64 := by
  unfold annualizedInflationReward
  split
  · next h =>
    rcases h with rfl | rfl <;> simp
  · have hlt := totalStake.toNat_lt
    have hproduct : totalStake.toNat * annualInflationBps.toNat < 2 ^ 128 := by
      rw [show annualInflationBps.toNat = 200 from rfl]
      omega
    rw [UInt64.toNat_ofNat', Nat.mod_eq_of_lt hproduct, Nat.div_div_eq_div_mul]

/-- Stake that is lost when the sum wraps is inflation that is lost. -/
theorem exactInflation_lt {stake wrapped elapsed : ℕ} (h : wrapped + 2 ^ 64 ≤ stake)
    (helapsed : 0 < elapsed) : exactInflation wrapped elapsed < exactInflation stake elapsed := by
  unfold exactInflation
  rw [show annualInflationBps.toNat = 200 from rfl, show secondsPerYear.toNat = 31536000 from rfl]
  rw [Nat.lt_iff_add_one_le, ← Nat.add_div_right _ (by decide)]
  refine Nat.div_le_div_right ?_
  calc wrapped * 200 * elapsed + 10000 * 31536000
      ≤ wrapped * 200 * elapsed + 2 ^ 64 * 200 * elapsed := by omega
    _ = (wrapped + 2 ^ 64) * 200 * elapsed := by ring
    _ ≤ stake * 200 * elapsed := by gcongr

/-- Where the inflation fits in 64 bits, the product fits in 128. -/
theorem product_lt {stake elapsed : ℕ} (h : exactInflation stake elapsed < 2 ^ 64) :
    stake * annualInflationBps.toNat * elapsed < 2 ^ 128 := by
  unfold exactInflation at h
  rw [Nat.div_lt_iff_lt_mul (by decide)] at h
  exact h.trans (by decide)

/-- **When the inflation is exact**: no time has passed, or the active stake and the inflation fit
in 64 bits. -/
theorem annualizedInflationReward_eq_iff (validators : List Validator) (elapsedSecs : UInt64) :
    (annualizedInflationReward (totalActiveStake validators) elapsedSecs).toNat =
        exactInflation (activeStake validators) elapsedSecs.toNat ↔
      elapsedSecs = 0 ∨ (activeStake validators < 2 ^ 64 ∧
        exactInflation (activeStake validators) elapsedSecs.toNat < 2 ^ 64) := by
  rw [toNat_annualizedInflationReward, toNat_totalActiveStake_mod]
  by_cases hzero : elapsedSecs = 0
  · rw [hzero]
    simp [exactInflation]
  rcases Nat.lt_or_ge (activeStake validators) (2 ^ 64) with hstake | hstake
  · rw [Nat.mod_eq_of_lt hstake]
    constructor
    · intro h
      exact .inr ⟨hstake, h ▸ Nat.mod_lt _ (Nat.two_pow_pos 64)⟩
    · rintro (h | ⟨-, h⟩)
      · exact absurd h hzero
      · rw [Nat.mod_eq_of_lt (product_lt h)]
        exact Nat.mod_eq_of_lt h
  · -- the sum has wrapped, and what is left of it gives less
    refine iff_of_false (ne_of_lt ?_) ?_
    · have hpos : 0 < elapsedSecs.toNat :=
        Nat.pos_of_ne_zero fun h => hzero (UInt64.toNat_inj.mp h)
      have hdiv := Nat.div_add_mod (activeStake validators) (2 ^ 64)
      have hle : activeStake validators % 2 ^ 64 + 2 ^ 64 ≤ activeStake validators := by omega
      refine Nat.lt_of_le_of_lt ?_ (exactInflation_lt hle hpos)
      exact (Nat.mod_le _ _).trans (Nat.div_le_div_right (Nat.mod_le _ _))
    · rintro (h | ⟨h, -⟩)
      · exact hzero h
      · exact absurd h (Nat.not_lt.mpr hstake)

/-- **Nothing is truncated**: the rewards are the exact pool, and every value on the way to it fits
in the width in which it is computed. -/
structure Untruncated (validators : List Validator) (transactions : List Transaction)
    (elapsedSecs : UInt64) (rewards : List ValidatorReward) : Prop where
  sum : (rewards.map fun reward => reward.amount.toNat).sum =
    (transactions.map fun tx => tx.fee.toNat).sum +
      exactInflation (activeStake validators) elapsedSecs.toNat
  stake : activeStake validators < 2 ^ 64
  product : activeStake validators * annualInflationBps.toNat * elapsedSecs.toNat < 2 ^ 128
  inflation : exactInflation (activeStake validators) elapsedSecs.toNat < 2 ^ 64
  pool : (transactions.map fun tx => tx.fee.toNat).sum +
    exactInflation (activeStake validators) elapsedSecs.toNat < 2 ^ 64

/-- **When the rewards are the exact pool**: nothing is truncated if and only if the active stake
and the inflation fit in 64 bits; and the sum alone is exact also when no time has passed. -/
theorem rewards_exact_iff (validators : List Validator) (hlength : validators.length < 2 ^ 64)
    (collector : VoteCollector) (transactions : List Transaction) (elapsedSecs : UInt64)
    (rewards : List ValidatorReward)
    (h : distributeVotingRewards validators collector transactions elapsedSecs = .ok rewards) :
    (Untruncated validators transactions elapsedSecs rewards ↔
      activeStake validators < 2 ^ 64 ∧
        exactInflation (activeStake validators) elapsedSecs.toNat < 2 ^ 64) ∧
    ((rewards.map fun reward => reward.amount.toNat).sum =
        (transactions.map fun tx => tx.fee.toNat).sum +
          exactInflation (activeStake validators) elapsedSecs.toNat ↔
      elapsedSecs = 0 ∨ (activeStake validators < 2 ^ 64 ∧
        exactInflation (activeStake validators) elapsedSecs.toNat < 2 ^ 64)) := by
  have hfits : exactVotingStake validators collector < 2 ^ 128 :=
    Nat.lt_of_le_of_lt (exactVotingStake_le validators collector) (activeStake_lt hlength)
  obtain ⟨fees, rewardPool, hfees, hpool, hpos, rfl⟩ := (distributeVotingRewards_eq_ok hfits).mp h
  have hsum := sum_splitPool rewardPool hpos
  rw [totalTransactionFees_eq_ok] at hfees
  have hexact : ((splitPool rewardPool (votingParticipants validators collector)).map
      fun reward => reward.amount.toNat).sum = (transactions.map fun tx => tx.fee.toNat).sum +
        exactInflation (activeStake validators) elapsedSecs.toNat ↔
      elapsedSecs = 0 ∨ (activeStake validators < 2 ^ 64 ∧
        exactInflation (activeStake validators) elapsedSecs.toNat < 2 ^ 64) := by
    rw [← annualizedInflationReward_eq_iff, hsum, hpool, hfees, Nat.add_left_cancel_iff]
  refine ⟨⟨fun hfit => ⟨hfit.stake, hfit.inflation⟩, fun ⟨hstake, hinflation⟩ => ?_⟩, hexact⟩
  have hpoolExact := hexact.mpr (.inr ⟨hstake, hinflation⟩)
  refine ⟨hpoolExact, hstake, product_lt hinflation, hinflation, ?_⟩
  rw [← hpoolExact, hsum]
  exact rewardPool.toNat_lt

theorem sampleCollector_exact :
    Untruncated [validatorB, validatorA] [] 2365200000
      [⟨validatorB.address, 2⟩, ⟨validatorA.address, 1⟩] :=
  (rewards_exact_iff [validatorB, validatorA] (by decide) sampleCollector [] 2365200000 _
    distributeVotingRewards_sampleCollector).1.mpr (by decide)

/-- The vote of the validator with the smaller of the two large stakes. -/
def largeCollector : VoteCollector := collectVotes voteSignatures largeValidators [voteA7]

/-- **The inflation is lost**: the stakes of the two validators wrap to 1, on which the inflation of
a year is nothing, and the call succeeds with a reward of 0. The exact pool is a fiftieth of the
active stake. -/
theorem largeCollector_loses_inflation :
    distributeVotingRewards largeValidators largeCollector [] secondsPerYear =
        .ok [⟨validatorA.address, 0⟩] ∧
      (([⟨validatorA.address, 0⟩] : List ValidatorReward).map
          fun reward => reward.amount.toNat).sum ≠
        (([] : List Transaction).map fun tx => tx.fee.toNat).sum +
          exactInflation (activeStake largeValidators) secondsPerYear.toNat := by
  have hparticipants : votingParticipants largeValidators largeCollector =
      [{ validatorA with stake := 2 ^ 63 }] := by
    have hfilter : (largeValidators.filter fun validator =>
        0 < validator.stake ∧ validator.address ∈ largeCollector.votesByVoter) =
          [{ validatorA with stake := 2 ^ 63 }] := by decide +kernel
    rw [votingParticipants, hfilter]
    exact List.mergeSort_singleton _
  have hstake : exactVotingStake largeValidators largeCollector = 2 ^ 63 := by
    rw [exactVotingStake, hparticipants]
    decide +kernel
  refine ⟨?_, by decide +kernel⟩
  rw [distributeVotingRewards_eq_ok (by rw [hstake]; decide)]
  refine ⟨0, 0, rfl, by decide +kernel, by rw [hstake]; decide, ?_⟩
  rw [hparticipants]
  decide +kernel

end Prims
