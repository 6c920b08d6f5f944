import Prims.Crypto
import Mathlib.Data.List.AList
import Mathlib.Data.UInt

/-!
# Votes, tallies and slashing

The signed votes of `consensus/mod.rs`: a collector keeps at most one vote for each voter, a tally
adds up the stake behind the collected votes, a block is finalized when the approving stake
exceeds two thirds of the active stake, and two votes of one voter for two blocks of one height
are a proof that slashes the voter.

The collector is a hash map, whose values come in no particular order: `TallyResult` is the
relation between a collector and what a tally of it may return, over every order.

## Main definitions

* `VoteCollector.collectVote`, `collectVotes`: one vote, and a run of votes
* `tallyVotes`, `VoteCollector.TallyResult`: the tally
* `totalActiveStake`, `isBlockFinalized`: the finalization rule
* `detectDoubleVote`, `slashValidatorForDoubleVote`: slashing

## Main results

* `collectVote_cases`: what collecting one vote can do
* `collectVotes_wellFormed`: a collected vote was offered, verifies, and has a known voter
-/

namespace Prims

open Bincode

structure ConsensusVote where
  height : UInt64
  blockHash : Bytes
  voter : Bytes
  approve : Bool
  signature : Bytes
  deriving DecidableEq, Repr

instance : Codec ConsensusVote :=
  Codec.ofEquiv (β := UInt64 × Bytes × Bytes × Bool × Bytes)
    { toFun v := (v.height, v.blockHash, v.voter, v.approve, v.signature)
      invFun := fun (height, blockHash, voter, approve, signature) =>
        ⟨height, blockHash, voter, approve, signature⟩ }

structure VoteTally where
  approveStake : UInt64 := 0
  rejectStake : UInt64 := 0
  totalVotes : ℕ := 0
  deriving DecidableEq, Repr

/-- The collected votes, by voter. -/
structure VoteCollector where
  votesByVoter : AList (fun _ : Bytes => ConsensusVote) := ∅

inductive VoteError where
  | invalidVoterKeyLength
  | invalidSignatureLength
  | invalidSignature
  | unknownValidator
  | duplicateVote
  | serialization (message : String)
  deriving DecidableEq, Repr

section Votes

variable (P : Primitives)

/-- The signed bytes: the vote with its signature cleared. -/
def unsignedVoteBytes (vote : ConsensusVote) : Bytes :=
  serialize { vote with signature := [] }

def createSignedVote (height : UInt64) (blockHash : Bytes) (approve : Bool)
    (secretKey : Bytes32) : ConsensusVote :=
  let vote : ConsensusVote :=
    { height, blockHash, voter := (P.publicKey secretKey).toList, approve, signature := [] }
  { vote with signature := (P.sign secretKey (unsignedVoteBytes vote)).toList }

def verifyVote (vote : ConsensusVote) : Except VoteError Bool :=
  match vote.voter.toVector? 32 with
  | none => .error .invalidVoterKeyLength
  | some voter =>
    if P.validKey voter then
      match vote.signature.toVector? 64 with
      | none => .error .invalidSignatureLength
      | some signature => .ok (P.verify voter (unsignedVoteBytes vote) signature)
    -- a key that is no curve point is reported under the same error as a wrong length
    else .error .invalidVoterKeyLength

/-- The stake of the first active validator with the address. -/
def validatorStake (validators : List Validator) (address : Bytes) : Option UInt64 :=
  (validators.find? fun v => v.address = address ∧ 0 < v.stake).map Validator.stake

/-! ## Collecting -/

namespace VoteCollector

def new : VoteCollector := {}

/-- The collected votes, in some order. -/
def votes (c : VoteCollector) : List ConsensusVote :=
  c.votesByVoter.entries.map Sigma.snd

/-- Collect one vote: the result of the call, and the collector after it. -/
def collectVote (c : VoteCollector) (vote : ConsensusVote) (validators : List Validator) :
    Except VoteError Unit × VoteCollector :=
  if (validatorStake validators vote.voter).isNone then (.error .unknownValidator, c)
  else
    match verifyVote P vote with
    | .error e => (.error e, c)
    | .ok false => (.error .invalidSignature, c)
    | .ok true =>
      if vote.voter ∈ c.votesByVoter then (.error .duplicateVote, c)
      else (.ok (), ⟨c.votesByVoter.insert vote.voter vote⟩)

end VoteCollector

/-- The collector after a run of votes, whatever the result of each. -/
def collectVotes (validators : List Validator) (votes : List ConsensusVote) : VoteCollector :=
  votes.foldl (fun c vote => (c.collectVote P vote validators).2) .new

end Votes

/-! ## Tallying -/

/-- Add one vote to a tally. The two additions panic when they overflow. -/
def tallyVote (validators : List Validator) (tally : VoteTally) (vote : ConsensusVote) :
    Except (Fault VoteError) VoteTally :=
  match validatorStake validators vote.voter with
  | none => .error (.err .unknownValidator)
  | some stake =>
    if vote.approve then
      match tally.approveStake.checkedAdd stake with
      | none => .error .panic
      | some sum => .ok { tally with approveStake := sum, totalVotes := tally.totalVotes + 1 }
    else
      match tally.rejectStake.checkedAdd stake with
      | none => .error .panic
      | some sum => .ok { tally with rejectStake := sum, totalVotes := tally.totalVotes + 1 }

/-- The tally of the votes in a given order. -/
def tallyVotes (validators : List Validator) (votes : List ConsensusVote) :
    Except (Fault VoteError) VoteTally :=
  votes.foldlM (tallyVote validators) {}

/-- What `tally` may return: the collector is a hash map, and it lists its votes in any order. -/
def VoteCollector.TallyResult (c : VoteCollector) (validators : List Validator)
    (r : Except (Fault VoteError) VoteTally) : Prop :=
  ∃ votes, votes.Perm c.votes ∧ tallyVotes validators votes = r

/-- The active stake, added up in 64 bits: in a release build the sum wraps. -/
def totalActiveStake (validators : List Validator) : UInt64 :=
  ((validators.filter fun v => 0 < v.stake).map Validator.stake).sum

/-- **The finalization rule**: more than two thirds of the active stake approves. -/
def isBlockFinalized (tally : VoteTally) (validators : List Validator) : Bool :=
  let totalStake := (totalActiveStake validators).toNat
  if totalStake = 0 then false
  else totalStake * 2 < tally.approveStake.toNat * 3

/-! ## Slashing -/

structure DoubleVoteProof where
  firstVote : ConsensusVote
  secondVote : ConsensusVote
  deriving DecidableEq, Repr

inductive SlashingError where
  | differentVoters
  | differentHeights
  | sameBlockHash
  | invalidFirstVote
  | invalidSecondVote
  | invalidPenaltyBps
  | validatorDoesNotMatchProof
  deriving DecidableEq, Repr

def detectDoubleVote (P : Primitives) (firstVote secondVote : ConsensusVote) :
    Except SlashingError DoubleVoteProof :=
  if firstVote.voter ≠ secondVote.voter then .error .differentVoters
  else if firstVote.height ≠ secondVote.height then .error .differentHeights
  else if firstVote.blockHash = secondVote.blockHash then .error .sameBlockHash
  else
    match verifyVote P firstVote with
    | .ok true =>
      match verifyVote P secondVote with
      | .ok true => .ok ⟨firstVote, secondVote⟩
      | _ => .error .invalidSecondVote
    | _ => .error .invalidFirstVote

def slashValidatorForDoubleVote (validator : Validator) (proof : DoubleVoteProof)
    (penaltyBps : UInt16) : Except SlashingError Validator :=
  if penaltyBps = 0 ∨ 10000 < penaltyBps then .error .invalidPenaltyBps
  else if validator.address ≠ proof.firstVote.voter then .error .validatorDoesNotMatchProof
  else if validator.stake = 0 then .ok validator
  else
    let computedPenalty := validator.stake.toNat * penaltyBps.toNat / 10000
    let penalty := min (max computedPenalty 1) validator.stake.toNat
    .ok { validator with stake := validator.stake - UInt64.ofNat penalty }

/-! ## What collecting can do -/

section Collecting

variable {P : Primitives} {validators : List Validator} {vote : ConsensusVote}

/-- A vote that passes the checks of `collectVote` that do not read the collector. -/
def Acceptable (P : Primitives) (validators : List Validator) (vote : ConsensusVote) : Prop :=
  (validatorStake validators vote.voter).isSome ∧ verifyVote P vote = .ok true

/-- **What collecting one vote can do**: it keeps the collector, or it adds an acceptable vote of
a new voter. -/
theorem collectVote_cases (P : Primitives) (validators : List Validator) (vote : ConsensusVote)
    (c : VoteCollector) :
    (c.collectVote P vote validators).2 = c ∨
      Acceptable P validators vote ∧ vote.voter ∉ c.votesByVoter ∧
        (c.collectVote P vote validators).2 = ⟨c.votesByVoter.insert vote.voter vote⟩ := by
  unfold VoteCollector.collectVote
  split
  · exact .inl rfl
  · next hs =>
    split
    · exact .inl rfl
    · exact .inl rfl
    · next hv =>
      split
      · exact .inl rfl
      · next hm => exact .inr ⟨⟨by simpa [Option.isSome_iff_ne_none] using hs, hv⟩, hm, rfl⟩

theorem votes_insert {c : VoteCollector} (h : vote.voter ∉ c.votesByVoter) :
    VoteCollector.votes ⟨c.votesByVoter.insert vote.voter vote⟩ = vote :: c.votes := by
  rw [VoteCollector.votes, AList.entries_insert_of_notMem h]
  rfl

/-- The invariant of a collector: each vote is filed under its voter, was offered, and is
acceptable. -/
def VoteCollector.WellFormed (P : Primitives) (validators : List Validator)
    (offered : List ConsensusVote) (c : VoteCollector) : Prop :=
  ∀ e ∈ c.votesByVoter.entries, e.1 = e.2.voter ∧ e.2 ∈ offered ∧ Acceptable P validators e.2

theorem VoteCollector.WellFormed.collectVote {offered : List ConsensusVote} {c : VoteCollector}
    (h : c.WellFormed P validators offered) (hv : vote ∈ offered) :
    (c.collectVote P vote validators).2.WellFormed P validators offered := by
  rcases collectVote_cases P validators vote c with he | ⟨hacc, hnew, he⟩
  · rwa [he]
  · rw [he]
    intro e hmem
    rw [AList.entries_insert_of_notMem hnew, List.mem_cons] at hmem
    rcases hmem with rfl | hmem
    · exact ⟨rfl, hv, hacc⟩
    · exact h e hmem

/-- Every collector reached by a run of votes is well formed. -/
theorem collectVotes_wellFormed (P : Primitives) (validators : List Validator)
    (votes : List ConsensusVote) :
    (collectVotes P validators votes).WellFormed P validators votes := by
  have hrun : ∀ (l : List ConsensusVote) (c : VoteCollector), (∀ v ∈ l, v ∈ votes) →
      c.WellFormed P validators votes →
      (l.foldl (fun c vote => (c.collectVote P vote validators).2) c).WellFormed P validators
        votes := by
    intro l
    induction l with
    | nil => exact fun c _ hc => hc
    | cons v l ih =>
      intro c hl hc
      rw [List.forall_mem_cons] at hl
      exact ih _ hl.2 (hc.collectVote hl.1)
  exact hrun votes _ (fun _ => id) fun e he => by simp [VoteCollector.new] at he

/-- The voters of a well-formed collector are pairwise distinct. -/
theorem VoteCollector.WellFormed.nodup_voters {offered : List ConsensusVote} {c : VoteCollector}
    (h : c.WellFormed P validators offered) : (c.votes.map ConsensusVote.voter).Nodup := by
  have hkeys : c.votes.map ConsensusVote.voter = c.votesByVoter.keys := by
    rw [VoteCollector.votes, List.map_map, AList.keys, List.keys]
    exact List.map_congr_left fun e he => (h e he).1.symm
  rw [hkeys]
  exact c.votesByVoter.keys_nodup

/-- In a well-formed collector, the vote filed under an address is the one vote of that voter. -/
theorem VoteCollector.WellFormed.lookup_eq_some {offered : List ConsensusVote}
    {c : VoteCollector} (h : c.WellFormed P validators offered) {address : Bytes} :
    c.votesByVoter.lookup address = some vote ↔ vote ∈ c.votes ∧ vote.voter = address := by
  rw [← Option.mem_def, AList.mem_lookup_iff, VoteCollector.votes, List.mem_map]
  constructor
  · intro he
    exact ⟨⟨_, he, rfl⟩, (h _ he).1.symm⟩
  · rintro ⟨⟨⟨k, v⟩, he, rfl⟩, rfl⟩
    have hk : k = v.voter := (h _ he).1
    exact hk ▸ he

theorem VoteCollector.WellFormed.acceptable {offered : List ConsensusVote} {c : VoteCollector}
    (h : c.WellFormed P validators offered) (hv : vote ∈ c.votes) :
    vote ∈ offered ∧ Acceptable P validators vote := by
  obtain ⟨e, he, rfl⟩ := List.mem_map.mp hv
  exact (h e he).2

end Collecting

end Prims
