import Prims.Consensus.Finality

/-!
# The threshold of finality

The stake of the approving votes is added up with checks, and a tally that overflows fails. The
active stake that it is compared with is added up without, and wraps. The threshold is two thirds of
the active stake as long as that fits in 64 bits. Beyond, it is two thirds of what is left of the
sum, so that a minority finalizes; and where nothing is left, nobody does.

## Main definitions

* `SameSide`: the exact and the wrapped sum are on the same side of the approving stake

## Main results

* `isBlockFinalized_iff`: the rule in terms of the exact sum
* `finalized_iff_two_thirds_iff`: when the rule is the two thirds rule
-/

namespace Prims

/-- **The rule**: more than two thirds of the wrapped sum, which is not zero. -/
theorem isBlockFinalized_iff (tally : VoteTally) (validators : List Validator) :
    isBlockFinalized tally validators ↔ ¬ 2 ^ 64 ∣ activeStake validators ∧
      2 * (activeStake validators % 2 ^ 64) < 3 * tally.approveStake.toNat := by
  unfold isBlockFinalized
  rw [toNat_totalActiveStake_mod, Nat.dvd_iff_mod_eq_zero, Nat.mul_comm 2, Nat.mul_comm 3]
  by_cases hzero : activeStake validators % 2 ^ 64 = 0
  · rw [if_pos hzero]
    exact iff_of_false Bool.false_ne_true fun h => h.1 hzero
  · rw [if_neg hzero, decide_eq_true_eq]
    exact (and_iff_right hzero).symm

/-- The active stake fits in 64 bits, or what is left of it is on the same side of the approving
stake: where nothing is left, the approving stake is not above two thirds of the exact sum, and
otherwise it is not between two thirds of what is left and two thirds of the exact sum. -/
def SameSide (total approving : ℕ) : Prop :=
  total < 2 ^ 64 ∨
    (2 ^ 64 ∣ total ∧ 3 * approving ≤ 2 * total) ∨
    (¬ 2 ^ 64 ∣ total ∧
      (3 * approving ≤ 2 * (total % 2 ^ 64) ∨ 2 * total < 3 * approving))

/-- The wrapped sum decides as the exact one does on the same side, and only there. -/
theorem wrapped_iff_exact_iff {total approving : ℕ} (hle : approving ≤ total) :
    ((¬ 2 ^ 64 ∣ total ∧ 2 * (total % 2 ^ 64) < 3 * approving) ↔ 2 * total < 3 * approving) ↔
      SameSide total approving := by
  rcases Nat.lt_or_ge total (2 ^ 64) with hlt | hge
  · -- a sum that fits is what is left of it, and zero only where nobody approves
    rw [Nat.mod_eq_of_lt hlt]
    refine iff_of_true ⟨And.right, fun h => ⟨fun hdvd => ?_, h⟩⟩ (.inl hlt)
    have hzero := Nat.eq_zero_of_dvd_of_lt hdvd hlt
    omega
  · unfold SameSide
    omega

/-- **When the threshold is exact**: a tally is finalized if and only if the approving validators
have more than two thirds of the active stake, in the tallies in which the exact and the wrapped sum
are on the same side of their stake, and in no other. -/
theorem finalized_iff_two_thirds_iff (P : Primitives) (validators : List Validator)
    (hd : (validators.map Validator.address).Nodup) (votes : List ConsensusVote) (t : VoteTally)
    (ht : (collectVotes P validators votes).TallyResult validators (.ok t)) :
    (isBlockFinalized t validators ↔ 2 * activeStake validators <
        3 * stakeOf validators fun v =>
          ((collectVotes P validators votes).approval v.address).isSome) ↔
      SameSide (activeStake validators) (stakeOf validators fun v =>
        ((collectVotes P validators votes).approval v.address).isSome) := by
  rw [isBlockFinalized_iff, tally_approveStake hd (collectVotes_wellFormed P validators votes) ht]
  exact wrapped_iff_exact_iff Quorum.weight_le_sum

/-- One of two validators of stake 1 approves. -/
theorem voteA7_threshold :
    ([validatorA, validatorB].map Validator.address).Nodup ∧
      (isBlockFinalized ⟨1, 0, 1⟩ [validatorA, validatorB] ↔
        2 * activeStake [validatorA, validatorB] <
          3 * stakeOf [validatorA, validatorB] fun v =>
            ((collectVotes voteSignatures [validatorA, validatorB] [voteA7]).approval
              v.address).isSome) := by
  have htally : (collectVotes voteSignatures [validatorA, validatorB] [voteA7]).TallyResult
      [validatorA, validatorB] (.ok ⟨1, 0, 1⟩) := ⟨_, List.Perm.refl _, by decide +kernel⟩
  exact ⟨by decide, (finalized_iff_two_thirds_iff voteSignatures [validatorA, validatorB]
    (by decide) [voteA7] ⟨1, 0, 1⟩ htally).mpr (.inl (by decide))⟩

/-- **A minority finalizes**: the validator with the smaller stake approves alone, which is less
than half of the active stake, and the block is final. -/
theorem minority_finalizes :
    (largeValidators.map Validator.address).Nodup ∧
      ∃ t, (collectVotes voteSignatures largeValidators [voteA7]).TallyResult largeValidators
          (.ok t) ∧
        isBlockFinalized t largeValidators ∧
        ¬ 2 * activeStake largeValidators < 3 * stakeOf largeValidators fun v =>
          ((collectVotes voteSignatures largeValidators [voteA7]).approval v.address).isSome := by
  have htally : (collectVotes voteSignatures largeValidators [voteA7]).TallyResult largeValidators
      (.ok ⟨2 ^ 63, 0, 1⟩) := ⟨_, List.Perm.refl _, by decide +kernel⟩
  refine ⟨by decide, _, htally, by decide +kernel, ?_⟩
  rw [← tally_approveStake (by decide) (collectVotes_wellFormed _ _ _) htally]
  decide +kernel

end Prims
