import Prims.Consensus.Finality

/-!
# Fork choice

The heaviest-chain rule of `consensus/mod.rs`: a fork weighs as much as the approving stake of its
blocks together, and the heaviest fork wins, then the highest, then the one with the largest tip
hash. The rule looks at the sum and not at any one block, so a fork with a finalized block loses
to a long enough fork without one. A minority of at most a third of the stake needs more than two
blocks for each finalized block it is to outweigh.

## Main definitions

* `cumulativeChainWeight`, `chooseHeaviestChain`: the rule
* `finalizedCount`: the number of finalized blocks of a fork

## Main results

* `chooseHeaviestChain_pair`: the strictly heavier of two forks wins, in either order
* `finalizedCount_weight`, `minority_weight`: the two weights that are compared
-/

namespace Prims

structure ChainFork where
  tipHash : Bytes
  height : UInt64
  cumulativeStakeWeight : ℕ
  deriving DecidableEq, Repr

/-- The approving stake of the blocks together. The 128-bit sum of the source cannot overflow:
it has fewer than `2 ^ 64` terms, each below `2 ^ 64`. -/
def cumulativeChainWeight (tallies : List VoteTally) : ℕ :=
  (tallies.map fun t => t.approveStake.toNat).sum

/-- The order of the forks: weight, then height, then tip hash. -/
def ChainFork.cmp (left right : ChainFork) : Ordering :=
  (compare left.cumulativeStakeWeight right.cumulativeStakeWeight).then
    ((compare left.height right.height).then (compare left.tipHash right.tipHash))

/-- `Iterator::max_by`: of several maximal elements, the last. -/
def maxBy {α : Type} (cmp : α → α → Ordering) : List α → Option α
  | [] => none
  | a :: l => some (l.foldl (fun best b => if cmp best b = .gt then best else b) a)

/-- **The fork choice**: the largest fork. -/
def chooseHeaviestChain (forks : List ChainFork) : Option ChainFork :=
  maxBy ChainFork.cmp forks

theorem ChainFork.cmp_eq_gt {a b : ChainFork}
    (h : b.cumulativeStakeWeight < a.cumulativeStakeWeight) : a.cmp b = .gt := by
  have hc : compare a.cumulativeStakeWeight b.cumulativeStakeWeight = .gt :=
    Nat.compare_eq_gt.mpr h
  rw [ChainFork.cmp, hc]
  rfl

theorem ChainFork.cmp_eq_lt {a b : ChainFork}
    (h : a.cumulativeStakeWeight < b.cumulativeStakeWeight) : a.cmp b = .lt := by
  have hc : compare a.cumulativeStakeWeight b.cumulativeStakeWeight = .lt :=
    Nat.compare_eq_lt.mpr h
  rw [ChainFork.cmp, hc]
  rfl

/-- The strictly heavier of two forks wins, in either order. -/
theorem chooseHeaviestChain_pair {a b : ChainFork}
    (h : b.cumulativeStakeWeight < a.cumulativeStakeWeight) :
    chooseHeaviestChain [a, b] = some a ∧ chooseHeaviestChain [b, a] = some a := by
  constructor
  · simp [chooseHeaviestChain, maxBy, ChainFork.cmp_eq_gt h]
  · simp [chooseHeaviestChain, maxBy, ChainFork.cmp_eq_lt h]

/-! ## Finality against weight -/

section Finality

variable {validators : List Validator}

/-- The number of finalized blocks of a fork. -/
def finalizedCount (validators : List Validator) (tallies : List VoteTally) : ℕ :=
  tallies.countP fun t => isBlockFinalized t validators

theorem approveStake_of_finalized (hT : activeStake validators < 2 ^ 64) {t : VoteTally}
    (h : isBlockFinalized t validators) :
    2 * activeStake validators < 3 * t.approveStake.toNat := by
  unfold isBlockFinalized at h
  simp only [toNat_totalActiveStake hT] at h
  split at h
  · cases h
  · rw [decide_eq_true_eq] at h
    omega

/-- Each finalized block weighs more than two thirds of the stake. -/
theorem finalizedCount_weight (hT : activeStake validators < 2 ^ 64) (tallies : List VoteTally) :
    finalizedCount validators tallies * (2 * activeStake validators + 1) ≤
      3 * cumulativeChainWeight tallies := by
  induction tallies with
  | nil => simp [finalizedCount, cumulativeChainWeight]
  | cons t l ih =>
    have hw : cumulativeChainWeight (t :: l) = t.approveStake.toNat + cumulativeChainWeight l := by
      simp [cumulativeChainWeight]
    rw [hw, finalizedCount, List.countP_cons]
    by_cases hf : isBlockFinalized t validators
    · have ht := approveStake_of_finalized hT hf
      rw [if_pos hf, Nat.add_mul]
      unfold finalizedCount at ih
      omega
    · rw [if_neg hf, Nat.add_zero]
      unfold finalizedCount at ih
      omega

/-- A fork whose blocks have at most a third of the stake each. -/
theorem minority_weight {tallies : List VoteTally}
    (h : ∀ t ∈ tallies, 3 * t.approveStake.toNat ≤ activeStake validators) :
    3 * cumulativeChainWeight tallies ≤ tallies.length * activeStake validators := by
  induction tallies with
  | nil => simp [cumulativeChainWeight]
  | cons t l ih =>
    rw [List.forall_mem_cons] at h
    have hw : cumulativeChainWeight (t :: l) = t.approveStake.toNat + cumulativeChainWeight l := by
      simp [cumulativeChainWeight]
    have ih := ih h.2
    rw [hw, List.length_cons, Nat.add_mul]
    omega

/-- **A short minority fork loses to finality**: a fork with a finalized block is chosen over a
fork whose blocks have at most a third of the stake each, when the latter has at most two blocks
for each finalized block of the former. -/
theorem finalized_fork_beats_short_minority (validators : List Validator)
    (hT : activeStake validators < 2 ^ 64) (talliesA talliesB : List VoteTally)
    (tipA tipB : Bytes) (heightA heightB : UInt64)
    (hA : ∃ t ∈ talliesA, isBlockFinalized t validators)
    (hB : ∀ t ∈ talliesB, 3 * t.approveStake.toNat ≤ activeStake validators)
    (hlen : talliesB.length ≤ 2 * finalizedCount validators talliesA) :
    let forkA : ChainFork := ⟨tipA, heightA, cumulativeChainWeight talliesA⟩
    let forkB : ChainFork := ⟨tipB, heightB, cumulativeChainWeight talliesB⟩
    chooseHeaviestChain [forkA, forkB] = some forkA ∧
      chooseHeaviestChain [forkB, forkA] = some forkA := by
  intro forkA forkB
  apply chooseHeaviestChain_pair
  show cumulativeChainWeight talliesB < cumulativeChainWeight talliesA
  have hpos : 0 < finalizedCount validators talliesA := List.countP_pos_iff.mpr hA
  have hfin := finalizedCount_weight hT talliesA
  have hmin := minority_weight hB
  have hmul := Nat.mul_le_mul_right (activeStake validators) hlen
  -- each finalized block is strictly above two thirds, and the strictness is what decides
  have hexp : finalizedCount validators talliesA * (2 * activeStake validators + 1) =
      2 * finalizedCount validators talliesA * activeStake validators +
        finalizedCount validators talliesA := by ring
  omega

end Finality

/-- Two validators, of stakes 7 and 3. -/
def sevenAndThree : List Validator :=
  [{ validatorA with stake := 7 }, { validatorB with stake := 3 }]

/-- The majority finalizes one block, and the minority's two blocks do not outweigh it. -/
theorem sevenAndThree_short_fork :
    chooseHeaviestChain [⟨[1], 1, cumulativeChainWeight [⟨7, 0, 1⟩]⟩,
        ⟨[2], 2, cumulativeChainWeight [⟨3, 0, 1⟩, ⟨3, 0, 1⟩]⟩] =
      some ⟨[1], 1, cumulativeChainWeight [⟨7, 0, 1⟩]⟩ :=
  (finalized_fork_beats_short_minority sevenAndThree (by decide) [⟨7, 0, 1⟩]
    [⟨3, 0, 1⟩, ⟨3, 0, 1⟩] [1] [2] 1 2 (by decide) (by decide) (by decide)).1

/-- **Three minority blocks outweigh a finalized one**: the majority of stake 7 finalizes a block,
the minority of stake 3 extends its own fork by three, and the minority's fork is chosen. -/
theorem sevenAndThree_long_fork :
    activeStake sevenAndThree < 2 ^ 64 ∧ isBlockFinalized ⟨7, 0, 1⟩ sevenAndThree ∧
      (∀ t ∈ List.replicate 3 (⟨3, 0, 1⟩ : VoteTally),
        3 * t.approveStake.toNat ≤ activeStake sevenAndThree) ∧
      chooseHeaviestChain [⟨[1], 1, cumulativeChainWeight [⟨7, 0, 1⟩]⟩,
          ⟨[2], 3, cumulativeChainWeight (List.replicate 3 ⟨3, 0, 1⟩)⟩] ≠
        some ⟨[1], 1, cumulativeChainWeight [⟨7, 0, 1⟩]⟩ := by
  refine ⟨by decide, by decide, by decide, ?_⟩
  have hlt : cumulativeChainWeight [⟨7, 0, 1⟩] <
      cumulativeChainWeight (List.replicate 3 ⟨3, 0, 1⟩) := by decide
  rw [(chooseHeaviestChain_pair hlt).2]
  decide

end Prims
