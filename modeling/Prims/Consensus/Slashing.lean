import Prims.Consensus.Finality

/-!
# Slashing

Two votes of a validator that contradict one another cost it a part of its stake, in hundredths of a
percent and rounded down, and one unit at least. The penalty is therefore never more than the stake,
and a validator that is slashed again and again ends up with nothing.

## Main definitions

* `slashedStake`: the stake that a penalty leaves
* `Slash`, `Slash.apply`: two votes and a penalty, and what they do to a validator
* `Slash.Valid`: the votes are a proof against the address, and the penalty is in range

## Main results

* `Slash.Valid.apply_eq`: a valid slash changes the stake only, to `slashedStake`
* `Slash.foldlM_apply`: a run of valid slashes
* `slashing_is_exact_and_progressive`: one slash, and any run of slashes
-/

namespace Prims

/-! ## The penalty -/

/-- The stake that a penalty leaves. -/
def slashedStake (stake penaltyBps : ℕ) : ℕ := stake - max 1 (stake * penaltyBps / 10000)

section Penalty

variable {stake penaltyBps : ℕ}

/-- The penalty is at most the stake. -/
theorem penalty_le (hpos : 0 < stake) (hhi : penaltyBps ≤ 10000) :
    max 1 (stake * penaltyBps / 10000) ≤ stake := by
  refine max_le hpos (Nat.div_le_of_le_mul ?_)
  rw [Nat.mul_comm 10000]
  exact Nat.mul_le_mul_left stake hhi

theorem slashedStake_le (stake penaltyBps : ℕ) : slashedStake stake penaltyBps ≤ stake :=
  Nat.sub_le _ _

theorem slashedStake_zero (penaltyBps : ℕ) : slashedStake 0 penaltyBps = 0 := Nat.zero_sub _

/-- **Progress**: one unit at least is lost. -/
theorem slashedStake_lt (hpos : 0 < stake) (penaltyBps : ℕ) :
    slashedStake stake penaltyBps < stake :=
  Nat.sub_lt hpos (Nat.lt_of_lt_of_le Nat.zero_lt_one (le_max_left _ _))

/-- A larger penalty leaves less. -/
theorem slashedStake_anti {penaltyBps' : ℕ} (h : penaltyBps ≤ penaltyBps') (stake : ℕ) :
    slashedStake stake penaltyBps' ≤ slashedStake stake penaltyBps := by
  unfold slashedStake
  gcongr

/-- The largest penalty leaves nothing. -/
theorem slashedStake_ten_thousand (stake : ℕ) : slashedStake stake 10000 = 0 := by
  rw [slashedStake, Nat.mul_div_cancel _ (by decide)]
  exact Nat.sub_eq_zero_of_le (le_max_right _ _)

end Penalty

/-! ## One slash -/

/-- **What slashing does**: the stake becomes what the penalty leaves, without an underflow. -/
theorem slashValidatorForDoubleVote_eq_ok {validator : Validator} {proof : DoubleVoteProof}
    {penaltyBps : UInt16} (haddress : validator.address = proof.firstVote.voter)
    (hlo : 1 ≤ penaltyBps) (hhi : penaltyBps ≤ 10000) :
    slashValidatorForDoubleVote validator proof penaltyBps = .ok { validator with
      stake := UInt64.ofNat (slashedStake validator.stake.toNat penaltyBps.toNat) } := by
  rw [slashValidatorForDoubleVote, if_neg (penaltyBps_in_range hlo hhi),
    if_neg (not_not.mpr haddress)]
  obtain ⟨address, stake, lockedUntil⟩ := validator
  split
  · next hzero =>
    obtain rfl : stake = 0 := hzero
    rw [UInt64.toNat_zero, slashedStake_zero]
    rfl
  · next hne =>
    have hpos : 0 < stake.toNat := Nat.pos_of_ne_zero fun h => hne (UInt64.toNat_inj.mp h)
    have hle := penalty_le hpos (UInt16.le_iff_toNat_le.mp hhi)
    -- the penalty is at most the stake, so the minimum with the stake does nothing
    have hpenalty : min (max (stake.toNat * penaltyBps.toNat / 10000) 1) stake.toNat =
        max 1 (stake.toNat * penaltyBps.toNat / 10000) := by
      rw [max_comm]
      exact min_eq_left hle
    have hsub : stake - UInt64.ofNat (max 1 (stake.toNat * penaltyBps.toNat / 10000)) =
        UInt64.ofNat (slashedStake stake.toNat penaltyBps.toNat) := by
      rw [slashedStake, UInt64.ofNat_sub hle, UInt64.ofNat_toNat]
    dsimp only
    rw [hpenalty, hsub]

/-- Two votes of a validator and a penalty for them. -/
structure Slash where
  firstVote : ConsensusVote
  secondVote : ConsensusVote
  penaltyBps : UInt16

namespace Slash

variable (P : Primitives)

/-- The proof is made from the two votes, and the validator is slashed with it. -/
def apply (validator : Validator) (slash : Slash) : Except SlashingError Validator := do
  let proof ← detectDoubleVote P slash.firstVote slash.secondVote
  slashValidatorForDoubleVote validator proof slash.penaltyBps

/-- The same votes in the other order. -/
def swap (slash : Slash) : Slash := ⟨slash.secondVote, slash.firstVote, slash.penaltyBps⟩

/-- The votes are a proof against the address, and the penalty is in range. -/
structure Valid (address : Bytes) (slash : Slash) : Prop where
  proof : ∃ proof, detectDoubleVote P slash.firstVote slash.secondVote = .ok proof
  voter : slash.firstVote.voter = address
  positive : 1 ≤ slash.penaltyBps
  bounded : slash.penaltyBps ≤ 10000

/-- The validator after a slash. -/
def slashed (validator : Validator) (slash : Slash) : Validator :=
  { validator with
    stake := UInt64.ofNat (slashedStake validator.stake.toNat slash.penaltyBps.toNat) }

variable {P} {validator : Validator} {slash : Slash}

/-- **The order of the votes** makes no difference to whether they are a proof. -/
theorem detectDoubleVote_swap {first second : ConsensusVote}
    (h : ∃ proof, detectDoubleVote P first second = .ok proof) :
    ∃ proof, detectDoubleVote P second first = .ok proof := by
  obtain ⟨proof, hproof⟩ := h
  obtain ⟨hvoter, hheight, hhash, hfirst, hsecond, -⟩ := detectDoubleVote_eq_ok.mp hproof
  exact ⟨_, detectDoubleVote_ok hvoter.symm hheight.symm hhash.symm hsecond hfirst⟩

theorem Valid.swap {address : Bytes} (h : slash.Valid P address) : slash.swap.Valid P address := by
  obtain ⟨proof, hproof⟩ := h.proof
  have hvoter := (detectDoubleVote_eq_ok.mp hproof).1
  exact ⟨detectDoubleVote_swap h.proof, hvoter ▸ h.voter, h.positive, h.bounded⟩

/-- **A valid slash** succeeds and changes the stake only. -/
theorem Valid.apply_eq (h : slash.Valid P validator.address) :
    slash.apply P validator = .ok (slash.slashed validator) := by
  obtain ⟨proof, hproof⟩ := h.proof
  obtain ⟨-, -, -, -, -, rfl⟩ := detectDoubleVote_eq_ok.mp hproof
  rw [Slash.apply, hproof]
  exact slashValidatorForDoubleVote_eq_ok h.voter.symm h.positive h.bounded

theorem toNat_stake_slashed (validator : Validator) (slash : Slash) :
    (slash.slashed validator).stake.toNat =
      slashedStake validator.stake.toNat slash.penaltyBps.toNat :=
  UInt64.toNat_ofNat_of_lt' (Nat.lt_of_le_of_lt (slashedStake_le _ _) validator.stake.toNat_lt)

/-- Without stake there is nothing to slash. -/
theorem slashed_eq_self (hzero : validator.stake = 0) : slash.slashed validator = validator := by
  have hstake : (slash.slashed validator).stake = validator.stake := by
    apply UInt64.toNat_inj.mp
    rw [toNat_stake_slashed, hzero, UInt64.toNat_zero, slashedStake_zero]
  obtain ⟨address, stake, lockedUntil⟩ := validator
  exact congrArg (Validator.mk address · lockedUntil) hstake

/-- **Progress**: a validator with stake loses some of it. -/
theorem slashed_stake_lt (hpos : 0 < validator.stake) :
    (slash.slashed validator).stake < validator.stake := by
  rw [UInt64.lt_iff_toNat_lt, toNat_stake_slashed]
  exact slashedStake_lt (UInt64.lt_iff_toNat_lt.mp hpos) _

/-! ## Runs of slashes -/

/-- **A run of valid slashes** succeeds, keeps the address, and takes one unit of stake at least for
every slash, until nothing is left. -/
theorem foldlM_apply {slashes : List Slash}
    (h : ∀ slash ∈ slashes, slash.Valid P validator.address) :
    ∃ after, slashes.foldlM (fun validator slash => slash.apply P validator) validator =
        .ok after ∧
      after = { validator with stake := after.stake } ∧
      (after.stake.toNat + slashes.length ≤ validator.stake.toNat ∨ after.stake = 0) := by
  induction slashes generalizing validator with
  | nil => exact ⟨validator, rfl, rfl, .inl le_rfl⟩
  | cons slash slashes ih =>
    rw [List.forall_mem_cons] at h
    obtain ⟨hvalid, hrest⟩ := h
    -- the address stays, so the remaining slashes are valid for what is left
    have hrest : ∀ later ∈ slashes, later.Valid P (slash.slashed validator).address := hrest
    obtain ⟨after, hrun, hafter, hstake⟩ := ih hrest
    refine ⟨after, ?_, hafter, ?_⟩
    · rw [List.foldlM_cons, hvalid.apply_eq]
      exact hrun
    · rw [toNat_stake_slashed] at hstake
      rcases Nat.eq_zero_or_pos validator.stake.toNat with hzero | hpos
      · rw [hzero, slashedStake_zero] at hstake
        refine .inr (hstake.elim (fun hle => ?_) id)
        exact UInt64.toNat_inj.mp (Nat.eq_zero_of_le_zero (by omega))
      · have hlt := slashedStake_lt hpos slash.penaltyBps.toNat
        rw [List.length_cons]
        exact hstake.imp_left fun hle => by omega

end Slash

/-- **Slashing is exact and progressive.** Two votes are a proof in one order when they are in the
other. A valid slash succeeds in either order of the votes and changes the stake only: a positive
stake loses its share rounded down, and one unit at least, which is never more than the stake; a
larger penalty leaves no more, and the largest one nothing. In every run of valid slashes the stake
falls with every slash until it is 0, where it stays. -/
theorem slashing_is_exact_and_progressive (P : Primitives) (validator : Validator) :
    (∀ first second, (∃ proof, detectDoubleVote P first second = .ok proof) ↔
      ∃ proof, detectDoubleVote P second first = .ok proof) ∧
    (∀ slash : Slash, slash.Valid P validator.address →
      ∃ slashed, slash.apply P validator = .ok slashed ∧
        slash.swap.apply P validator = .ok slashed ∧
        slashed = { validator with stake := slashed.stake } ∧
        (0 < validator.stake →
          max 1 (validator.stake.toNat * slash.penaltyBps.toNat / 10000) ≤ validator.stake.toNat ∧
          slashed.stake.toNat = validator.stake.toNat -
            max 1 (validator.stake.toNat * slash.penaltyBps.toNat / 10000) ∧
          slashed.stake < validator.stake ∧
          (slash.penaltyBps = 10000 → slashed.stake = 0)) ∧
        ∀ other : Slash, other.Valid P validator.address → slash.penaltyBps ≤ other.penaltyBps →
          ∃ slashed', other.apply P validator = .ok slashed' ∧ slashed'.stake ≤ slashed.stake) ∧
    ∀ slashes : List Slash, (∀ slash ∈ slashes, slash.Valid P validator.address) →
      ∃ after, slashes.foldlM (fun validator slash => slash.apply P validator) validator =
          .ok after ∧
        after = { validator with stake := after.stake } ∧
        (after.stake.toNat + slashes.length ≤ validator.stake.toNat ∨ after.stake = 0) ∧
        ∀ slash : Slash, slash.Valid P validator.address →
          ∃ next, slash.apply P after = .ok next ∧
            (0 < after.stake → next.stake < after.stake) ∧
            (after.stake = 0 → next = after) := by
  refine ⟨fun first second => ⟨Slash.detectDoubleVote_swap, Slash.detectDoubleVote_swap⟩,
    fun slash hvalid => ?_, fun slashes hvalid => ?_⟩
  · refine ⟨slash.slashed validator, hvalid.apply_eq, hvalid.swap.apply_eq, rfl, fun hpos => ?_,
      fun other hother hle => ⟨other.slashed validator, hother.apply_eq, ?_⟩⟩
    · refine ⟨penalty_le (UInt64.lt_iff_toNat_lt.mp hpos)
        (UInt16.le_iff_toNat_le.mp hvalid.bounded), Slash.toNat_stake_slashed validator slash,
        Slash.slashed_stake_lt hpos, fun hall => ?_⟩
      apply UInt64.toNat_inj.mp
      rw [Slash.toNat_stake_slashed, hall]
      exact slashedStake_ten_thousand _
    · rw [UInt64.le_iff_toNat_le, Slash.toNat_stake_slashed, Slash.toNat_stake_slashed]
      exact slashedStake_anti (UInt16.le_iff_toNat_le.mp hle) _
  · obtain ⟨after, hrun, hafter, hstake⟩ := Slash.foldlM_apply hvalid
    refine ⟨after, hrun, hafter, hstake, fun slash hslash => ?_⟩
    have hnext : slash.Valid P after.address := by
      rw [hafter]
      exact hslash
    exact ⟨_, hnext.apply_eq, Slash.slashed_stake_lt, Slash.slashed_eq_self⟩

/-- Two votes of the first validator, for a tenth of a percent of its stake of 1. -/
theorem validatorA_slashed :
    (⟨voteA7, voteA8, 10⟩ : Slash).Valid voteSignatures validatorA.address ∧
      ∃ slashed, (⟨voteA7, voteA8, 10⟩ : Slash).apply voteSignatures validatorA = .ok slashed ∧
        slashed.stake < validatorA.stake := by
  have hproof : detectDoubleVote voteSignatures voteA7 voteA8 = .ok ⟨voteA7, voteA8⟩ := by
    decide +kernel
  have hvalid : (⟨voteA7, voteA8, 10⟩ : Slash).Valid voteSignatures validatorA.address :=
    ⟨⟨_, hproof⟩, rfl, by decide, by decide⟩
  obtain ⟨slashed, happly, -, -, hstake, -⟩ :=
    (slashing_is_exact_and_progressive voteSignatures validatorA).2.1 _ hvalid
  exact ⟨hvalid, slashed, happly, (hstake (by decide)).2.2.1⟩

end Prims
