import Prims.Consensus.Finality

/-!
# The order of the votes

Votes reach a collector in any order, and the collector is a hash map that is read in any order.
Neither order matters as long as there is one vote for each voter: the collector has the acceptable
votes, the result of each vote is the one it would have alone, and the tally is the stake of the
voters on each side. The stakes of both sides together are at most the active stake, so the
additions of the tally never overflow.

A block that is finalized stays finalized whatever votes follow, since the approving stake only
grows.

## Main definitions

* `collectResults`: the results of a run of votes
* `voterStake`: the stake of the voters of one side

## Main results

* `collectVotes_votes`: the collected votes are the acceptable ones
* `tallyResult_eq_ok`: a tally never fails
* `isBlockFinalized_append`: further votes do not undo a finalization
-/

namespace Prims

open Quorum

instance (P : Primitives) (validators : List Validator) (vote : ConsensusVote) :
    Decidable (Acceptable P validators vote) :=
  inferInstanceAs (Decidable (_ ∧ _))

/-! ## Collecting in any order -/

section Collecting

variable (P : Primitives) (validators : List Validator)

/-- Every vote of a run with the result of collecting it. -/
def collectResults :
    VoteCollector → List ConsensusVote → List (ConsensusVote × Except VoteError Unit)
  | _, [] => []
  | c, vote :: votes =>
    (vote, (c.collectVote P vote validators).1) ::
      collectResults (c.collectVote P vote validators).2 votes

variable {P validators} {c : VoteCollector} {vote : ConsensusVote}

/-- A vote of a new voter has the result that it has in an empty collector. -/
theorem collectVote_fst (h : vote.voter ∉ c.votesByVoter) :
    (c.collectVote P vote validators).1 = (VoteCollector.new.collectVote P vote validators).1 := by
  have hnew : vote.voter ∉ VoteCollector.new.votesByVoter := AList.notMem_empty _
  unfold VoteCollector.collectVote
  split
  · rfl
  · split
    · rfl
    · rfl
    · rfl

/-- A vote of a new voter is collected when it is acceptable. -/
theorem collectVote_snd (h : vote.voter ∉ c.votesByVoter) :
    (c.collectVote P vote validators).2 =
      if Acceptable P validators vote then ⟨c.votesByVoter.insert vote.voter vote⟩ else c := by
  split_ifs with hacc
  · obtain ⟨hstake, hverified⟩ := hacc
    have hnone : ¬ (validatorStake validators vote.voter).isNone := by
      simpa [Option.isSome_iff_ne_none] using hstake
    rw [VoteCollector.collectVote, if_neg hnone, hverified]
    dsimp only
    rw [if_neg h]
  · rcases collectVote_cases P validators vote c with hkeep | ⟨hacc', -⟩
    · exact hkeep
    · exact absurd hacc' hacc

/-- Collecting a vote leaves the other voters new. -/
theorem notMem_collectVote (h : vote.voter ∉ c.votesByVoter) {voter : Bytes}
    (hne : voter ≠ vote.voter) (hvoter : voter ∉ c.votesByVoter) :
    voter ∉ (c.collectVote P vote validators).2.votesByVoter := by
  rw [collectVote_snd h]
  split_ifs
  · rw [AList.mem_insert, not_or]
    exact ⟨hne, hvoter⟩
  · exact hvoter

theorem votes_collectVote (h : vote.voter ∉ c.votesByVoter) :
    (c.collectVote P vote validators).2.votes =
      if Acceptable P validators vote then vote :: c.votes else c.votes := by
  rw [collectVote_snd h]
  split_ifs
  · exact votes_insert h
  · rfl

/-- The voters that are left to vote are new to the collector. -/
def NewVoters (c : VoteCollector) (votes : List ConsensusVote) : Prop :=
  (votes.map ConsensusVote.voter).Nodup ∧ ∀ vote ∈ votes, vote.voter ∉ c.votesByVoter

theorem NewVoters.collectVote (P : Primitives) (validators : List Validator)
    {votes : List ConsensusVote} (h : NewVoters c (vote :: votes)) :
    vote.voter ∉ c.votesByVoter ∧ NewVoters (c.collectVote P vote validators).2 votes := by
  obtain ⟨hnodup, hnew⟩ := h
  rw [List.map_cons, List.nodup_cons] at hnodup
  rw [List.forall_mem_cons] at hnew
  refine ⟨hnew.1, hnodup.2, fun vote' hmem => ?_⟩
  refine notMem_collectVote hnew.1 (fun heq => ?_) (hnew.2 vote' hmem)
  exact hnodup.1 (heq ▸ List.mem_map_of_mem hmem)

theorem newVoters_new {votes : List ConsensusVote} (h : (votes.map ConsensusVote.voter).Nodup) :
    NewVoters .new votes :=
  ⟨h, fun _ _ => AList.notMem_empty _⟩

/-- **The results of a run** are those of the votes alone. -/
theorem collectResults_eq_map {votes : List ConsensusVote} (h : NewVoters c votes) :
    collectResults P validators c votes = votes.map fun vote =>
      (vote, (VoteCollector.new.collectVote P vote validators).1) := by
  induction votes generalizing c with
  | nil => rfl
  | cons vote votes ih =>
    obtain ⟨hvote, hvotes⟩ := h.collectVote P validators
    rw [collectResults, List.map_cons, collectVote_fst hvote, ih hvotes]

/-- **The collected votes** of a run are the acceptable ones, the last one first. -/
theorem collectVotes_votes {votes : List ConsensusVote}
    (h : (votes.map ConsensusVote.voter).Nodup) :
    (collectVotes P validators votes).votes =
      (votes.filter fun vote => Acceptable P validators vote).reverse := by
  -- from any collector that the voters are new to, by induction on the votes that are left
  have hrun : ∀ (l : List ConsensusVote) (c : VoteCollector), NewVoters c l →
      (l.foldl (fun c vote => (c.collectVote P vote validators).2) c).votes =
        (l.filter fun vote => Acceptable P validators vote).reverse ++ c.votes := by
    intro l
    induction l with
    | nil => exact fun c _ => rfl
    | cons vote l ih =>
      intro c hc
      obtain ⟨hvote, hl⟩ := hc.collectVote P validators
      rw [List.foldl_cons, ih _ hl, votes_collectVote hvote, List.filter_cons]
      by_cases hacc : Acceptable P validators vote <;> simp [hacc]
  rw [collectVotes, hrun votes .new (newVoters_new h)]
  exact List.append_nil _

/-- The vote that a run leaves under an address. -/
theorem lookup_collectVotes_eq_some {votes : List ConsensusVote}
    (h : (votes.map ConsensusVote.voter).Nodup) {address : Bytes} :
    (collectVotes P validators votes).votesByVoter.lookup address = some vote ↔
      vote ∈ votes ∧ Acceptable P validators vote ∧ vote.voter = address := by
  rw [(collectVotes_wellFormed P validators votes).lookup_eq_some, collectVotes_votes h,
    List.mem_reverse, List.mem_filter, decide_eq_true_eq, and_assoc]

/-- **The order does not matter** to what is collected. -/
theorem lookup_collectVotes_perm {votes votes' : List ConsensusVote}
    (h : (votes.map ConsensusVote.voter).Nodup) (hperm : votes'.Perm votes) (address : Bytes) :
    (collectVotes P validators votes').votesByVoter.lookup address =
      (collectVotes P validators votes).votesByVoter.lookup address := by
  have h' : (votes'.map ConsensusVote.voter).Nodup := (hperm.map _).nodup_iff.mpr h
  apply Option.ext
  intro vote
  rw [lookup_collectVotes_eq_some h, lookup_collectVotes_eq_some h', hperm.mem_iff]

end Collecting

/-! ## Tallying in any order -/

section Tallying

variable {P : Primitives} {validators : List Validator}

/-- A vote of a known voter is added, when the sum of its side fits in 64 bits. -/
theorem tallyVote_eq_ok {vote : ConsensusVote} {t : VoteTally}
    (hk : (validatorStake validators vote.voter).isSome)
    (hfits : (t.stake vote.approve).toNat +
      ((validatorStake validators vote.voter).getD 0).toNat < 2 ^ 64) :
    ∃ t', tallyVote validators t vote = .ok t' := by
  obtain ⟨stake, hstake⟩ := Option.isSome_iff_exists.mp hk
  rw [hstake, Option.getD_some] at hfits
  have hsum : ∃ sum, (t.stake vote.approve).checkedAdd stake = some sum := by
    refine Option.ne_none_iff_exists'.mp fun hnone => ?_
    exact absurd (UInt64.checkedAdd_eq_none.mp hnone) (not_le.mpr hfits)
  obtain ⟨sum, hsum⟩ := hsum
  rw [tallyVote, hstake]
  dsimp only
  cases happrove : vote.approve with
  | true =>
    rw [happrove] at hsum
    have hadd : t.approveStake.checkedAdd stake = some sum := hsum
    rw [if_pos rfl, hadd]
    exact ⟨_, rfl⟩
  | false =>
    rw [happrove] at hsum
    have hadd : t.rejectStake.checkedAdd stake = some sum := hsum
    rw [if_neg Bool.false_ne_true, hadd]
    exact ⟨_, rfl⟩

/-- **A tally does not fail** when the voters are known and the stakes of both sides fit. -/
theorem tallyVotes_eq_ok {votes : List ConsensusVote}
    (hk : ∀ vote ∈ votes, (validatorStake validators vote.voter).isSome)
    (hfits : ∀ side, sideStake validators side votes < 2 ^ 64) :
    ∃ t, tallyVotes validators votes = .ok t := by
  have hrun : ∀ (l : List ConsensusVote) (t₀ : VoteTally),
      (∀ vote ∈ l, (validatorStake validators vote.voter).isSome) →
      (∀ side, (t₀.stake side).toNat + sideStake validators side l < 2 ^ 64) →
      ∃ t, l.foldlM (tallyVote validators) t₀ = .ok t := by
    intro l
    induction l with
    | nil => exact fun t₀ _ _ => ⟨t₀, rfl⟩
    | cons vote l ih =>
      intro t₀ hknown hsums
      rw [List.forall_mem_cons] at hknown
      have hside := hsums vote.approve
      rw [sideStake_cons, if_pos rfl] at hside
      obtain ⟨t₁, h₁⟩ := tallyVote_eq_ok hknown.1 (by omega : (t₀.stake vote.approve).toNat + _ < _)
      obtain ⟨t, ht⟩ := ih t₁ hknown.2 fun side => by
        have hsum := hsums side
        rw [sideStake_cons] at hsum
        rw [tallyVote_stake h₁ side]
        omega
      refine ⟨t, ?_⟩
      rw [List.foldlM_cons, h₁]
      exact ht
  refine hrun votes {} hk fun side => ?_
  have hzero : (({} : VoteTally).stake side).toNat = 0 := by cases side <;> rfl
  rw [hzero, Nat.zero_add]
  exact hfits side

/-- **Both sides together** have at most the active stake, since nobody votes on both. -/
theorem sideStake_add_le (hd : (validators.map Validator.address).Nodup)
    {votes : List ConsensusVote} (hn : (votes.map ConsensusVote.voter).Nodup)
    (hk : ∀ vote ∈ votes, (validatorStake validators vote.voter).isSome) :
    sideStake validators true votes + sideStake validators false votes ≤
      activeStake validators := by
  have hdisjoint : ∀ v ∈ validators,
      ¬ ((∃ vote ∈ votes, vote.voter = v.address ∧ vote.approve = true) ∧
        ∃ vote ∈ votes, vote.voter = v.address ∧ vote.approve = false) := by
    rintro v - ⟨⟨vote, hvote, hvoter, happrove⟩, vote', hvote', hvoter', hreject⟩
    have hsame : vote = vote' :=
      List.inj_on_of_nodup_map hn hvote hvote' (hvoter.trans hvoter'.symm)
    rw [hsame, hreject] at happrove
    exact Bool.false_ne_true happrove
  rw [sideStake_eq_stakeOf hd true hn hk, sideStake_eq_stakeOf hd false hn hk,
    ← weight_or hdisjoint]
  exact weight_le_sum

section Collector

variable {offered : List ConsensusVote} {c : VoteCollector}
  (hd : (validators.map Validator.address).Nodup) (hT : activeStake validators < 2 ^ 64)
  (hc : c.WellFormed P validators offered)
include hd hc

/-- The stakes of the collected votes of both sides. -/
theorem sideStake_votes_le :
    sideStake validators true c.votes + sideStake validators false c.votes ≤
      activeStake validators :=
  sideStake_add_le hd hc.nodup_voters fun _ hvote => (hc.acceptable hvote).2.1

include hT

/-- **A tally of a collector never fails**, in whatever order the votes are read. -/
theorem tallyResult_eq_ok {r : Except (Fault VoteError) VoteTally}
    (hr : c.TallyResult validators r) :
    ∃ t, r = .ok t ∧ ∀ side, (t.stake side).toNat = sideStake validators side c.votes := by
  obtain ⟨votes, hperm, rfl⟩ := hr
  have hle := sideStake_votes_le hd hc
  have hknown : ∀ vote ∈ votes, (validatorStake validators vote.voter).isSome :=
    fun vote hvote => (hc.acceptable (hperm.mem_iff.mp hvote)).2.1
  obtain ⟨t, ht⟩ := tallyVotes_eq_ok hknown fun side => by
    rw [sideStake_perm side hperm]
    cases side <;> omega
  refine ⟨t, ht, fun side => ?_⟩
  rw [tallyVotes_stake ht side, sideStake_perm side hperm]

end Collector

variable (P validators) in
/-- The stake of the known voters with a valid vote of one side. -/
def voterStake (side : Bool) (votes : List ConsensusVote) : ℕ :=
  stakeOf validators fun v =>
    ∃ vote ∈ votes, vote.voter = v.address ∧ vote.approve = side ∧ Acceptable P validators vote

/-- The collected votes of a side weigh as much as the voters of that side. -/
theorem sideStake_collectVotes (hd : (validators.map Validator.address).Nodup)
    {votes : List ConsensusVote} (hone : (votes.map ConsensusVote.voter).Nodup) (side : Bool) :
    sideStake validators side (collectVotes P validators votes).votes =
      voterStake P validators side votes := by
  have hc := collectVotes_wellFormed P validators votes
  rw [sideStake_eq_stakeOf hd side hc.nodup_voters fun vote hvote => (hc.acceptable hvote).2.1,
    collectVotes_votes hone]
  refine weight_congr fun v _ => exists_congr fun vote => ?_
  rw [List.mem_reverse, List.mem_filter, decide_eq_true_eq]
  tauto

/-! ## Finalized blocks -/

theorem isBlockFinalized_mono {t t' : VoteTally} (h : t.approveStake.toNat ≤ t'.approveStake.toNat)
    (hf : isBlockFinalized t validators) : isBlockFinalized t' validators := by
  unfold isBlockFinalized at hf ⊢
  dsimp only at hf ⊢
  split_ifs at hf ⊢
  rw [decide_eq_true_eq] at hf ⊢
  omega

/-- Collected votes are never dropped. -/
theorem sideStake_collectVote_le (c : VoteCollector) (vote : ConsensusVote) (side : Bool) :
    sideStake validators side c.votes ≤
      sideStake validators side (c.collectVote P vote validators).2.votes := by
  rcases collectVote_cases P validators vote c with hkeep | ⟨-, hnew, hadd⟩
  · rw [hkeep]
  · rw [hadd, votes_insert hnew, sideStake_cons]
    exact Nat.le_add_left _ _

theorem sideStake_collectVotes_le (votes further : List ConsensusVote) (side : Bool) :
    sideStake validators side (collectVotes P validators votes).votes ≤
      sideStake validators side (collectVotes P validators (votes ++ further)).votes := by
  induction further using List.reverseRecOn with
  | nil => rw [List.append_nil]
  | append_singleton further vote ih =>
    refine ih.trans ?_
    rw [← List.append_assoc, collectVotes, collectVotes, List.foldl_concat]
    exact sideStake_collectVote_le _ vote side

/-- **A finalized block stays finalized** whatever votes follow, collected or not. -/
theorem isBlockFinalized_append (hd : (validators.map Validator.address).Nodup)
    (hT : activeStake validators < 2 ^ 64) {votes further : List ConsensusVote} {t : VoteTally}
    (ht : (collectVotes P validators votes).TallyResult validators (.ok t))
    (hf : isBlockFinalized t validators) {r : Except (Fault VoteError) VoteTally}
    (hr : (collectVotes P validators (votes ++ further)).TallyResult validators r) :
    ∃ t', r = .ok t' ∧ isBlockFinalized t' validators := by
  obtain ⟨t₁, h₁, hstake₁⟩ :=
    tallyResult_eq_ok hd hT (collectVotes_wellFormed P validators votes) ht
  obtain ⟨t', rfl, hstake'⟩ :=
    tallyResult_eq_ok hd hT (collectVotes_wellFormed P validators (votes ++ further)) hr
  cases h₁
  refine ⟨t', rfl, isBlockFinalized_mono ?_ hf⟩
  have hle : sideStake validators true (collectVotes P validators votes).votes ≤
      sideStake validators true (collectVotes P validators (votes ++ further)).votes :=
    sideStake_collectVotes_le votes further true
  rw [← hstake₁, ← hstake'] at hle
  exact hle

end Tallying

/-- **Tallying is order-independent, bounded and monotone.** For votes of different voters, every
order leaves the same collector and gives every vote the same result. A tally never fails and
never overflows, in whatever order the collector is read; its two sides are the stakes of the known
voters with a valid vote, and together at most the active stake. Once a tally finalizes a block,
every tally after further votes does. -/
theorem tallying_order_bounded_monotone (P : Primitives) (validators : List Validator)
    (hd : (validators.map Validator.address).Nodup) (hT : activeStake validators < 2 ^ 64)
    (votes : List ConsensusVote) (hone : (votes.map ConsensusVote.voter).Nodup) :
    (∀ votes', votes'.Perm votes →
      (∀ address, (collectVotes P validators votes').votesByVoter.lookup address =
        (collectVotes P validators votes).votesByVoter.lookup address) ∧
      (collectResults P validators .new votes').Perm (collectResults P validators .new votes)) ∧
    (∀ r, (collectVotes P validators votes).TallyResult validators r →
      ∃ t, r = .ok t ∧ t.approveStake.toNat = voterStake P validators true votes ∧
        t.rejectStake.toNat = voterStake P validators false votes ∧
        t.approveStake.toNat + t.rejectStake.toNat ≤ activeStake validators) ∧
    ∀ t, (collectVotes P validators votes).TallyResult validators (.ok t) →
      isBlockFinalized t validators → ∀ further r,
        (collectVotes P validators (votes ++ further)).TallyResult validators r →
          ∃ t', r = .ok t' ∧ isBlockFinalized t' validators := by
  have hc := collectVotes_wellFormed P validators votes
  refine ⟨fun votes' hperm => ⟨lookup_collectVotes_perm hone hperm, ?_⟩, fun r hr => ?_,
    fun t ht hf further r hr => isBlockFinalized_append hd hT ht hf hr⟩
  · have hone' : (votes'.map ConsensusVote.voter).Nodup := (hperm.map _).nodup_iff.mpr hone
    rw [collectResults_eq_map (newVoters_new hone), collectResults_eq_map (newVoters_new hone')]
    exact hperm.map _
  · obtain ⟨t, rfl, hstake⟩ := tallyResult_eq_ok hd hT hc hr
    have happrove : t.approveStake.toNat = _ := hstake true
    have hreject : t.rejectStake.toNat = _ := hstake false
    refine ⟨t, rfl, ?_, ?_, ?_⟩
    · rw [happrove, sideStake_collectVotes hd hone]
    · rw [hreject, sideStake_collectVotes hd hone]
    · rw [happrove, hreject]
      exact sideStake_votes_le hd hc

/-- Two approvals in one order, and all their tallies. -/
theorem voteB8_voteA7_tally :
    ([validatorA, validatorB].map Validator.address).Nodup ∧
      activeStake [validatorA, validatorB] < 2 ^ 64 ∧
      ([voteA7, voteB8].map ConsensusVote.voter).Nodup ∧
      ∀ r, (collectVotes voteSignatures [validatorA, validatorB] [voteA7, voteB8]).TallyResult
          [validatorA, validatorB] r →
        ∃ t, r = .ok t ∧ t.approveStake.toNat + t.rejectStake.toNat ≤ 2 := by
  refine ⟨by decide, by decide, by decide, fun r hr => ?_⟩
  obtain ⟨t, ht, -, -, hle⟩ := (tallying_order_bounded_monotone voteSignatures
    [validatorA, validatorB] (by decide) (by decide) [voteA7, voteB8] (by decide)).2.1 r hr
  exact ⟨t, ht, hle⟩

end Prims
