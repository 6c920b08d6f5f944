import Prims.Consensus.Finality
import Prims.Lib.Draw
import Prims.Lib.Table

/-!
# The proposer of a block

The proposer of a height is drawn from the validators with stake, by a number that comes from the
hash of the block before and the height. The validators are put in the order of their addresses, and
every unit of stake is one lot.

A validator is therefore drawn with exactly its share of the stake. Validators under one address may
stand in any order among themselves, which changes the validator that is drawn, but not its address;
so all nodes agree on the proposer however they keep their validators.

## Main definitions

* `selectProposer`, `selectProposerBySeed`: the draw
* `selectedPlace`: the place at which the loop over the validators stops

## Main results

* `selectProposerBySeed_eq`: the draw in terms of the lots
* `proposer_drawn_by_stake`: the lots of every validator
* `proposer_agreed`: the proposer does not depend on the order of the validators
-/

namespace Prims

open Bincode Draw

/-- The errors of a draw. -/
inductive ProposerError where
  /-- "no eligible validators with positive stake" -/
  | noEligibleValidators
  /-- "total validator stake must be greater than zero" -/
  | zeroTotalStake
  /-- "failed to select proposer from validator set" -/
  | noneSelected
  deriving DecidableEq, Repr

section Model

variable (P : Primitives)

def proposerSeed (previousBlockHash : Bytes) (height : UInt64) : Bytes32 :=
  P.sha256 (previousBlockHash ++ beBytes 8 height.toNat)

/-- The loop over the validators: their stakes are added up in 128 bits, until the sum is above the
draw. -/
def pickByStake {α : Type} (stake : α → UInt64) (draw : ℕ) : ℕ → List α → Option α
  | _, [] => none
  | cumulative, a :: l =>
    let cumulative := (cumulative + (stake a).toNat) % 2 ^ 128
    if draw < cumulative then some a else pickByStake stake draw cumulative l

/-- The number that the first 16 bytes of a seed write. -/
def drawOfSeed (seed : Bytes32) : ℕ := beNat (seed.toList.take 16)

def selectProposerBySeed (validators : List Validator) (seed : Bytes32) :
    Except ProposerError Validator := do
  let eligible := validators.filter fun validator => 0 < validator.stake
  ensure (eligible ≠ []) .noEligibleValidators
  let eligible := sortByKey compare Validator.address eligible
  let totalStake : ℕ := (eligible.map fun validator => validator.stake.toNat).sum % 2 ^ 128
  ensure (totalStake ≠ 0) .zeroTotalStake
  let draw := drawOfSeed seed % totalStake
  (pickByStake Validator.stake draw 0 eligible).okOr .noneSelected

def selectProposer (validators : List Validator) (previousBlockHash : Bytes) (height : UInt64) :
    Except ProposerError Validator :=
  selectProposerBySeed validators (proposerSeed P previousBlockHash height)

end Model

/-! ## The loop -/

/-- **The loop** picks by weight as long as the stakes fit in 128 bits. -/
theorem pickByStake_eq_pick {α : Type} (stake : α → UInt64) (draw : ℕ) {cumulative : ℕ}
    {l : List α} (h : cumulative + (l.map fun a => (stake a).toNat).sum < 2 ^ 128) :
    pickByStake stake draw cumulative l = pick (fun a => (stake a).toNat) draw cumulative l := by
  induction l generalizing cumulative with
  | nil => rfl
  | cons a l ih =>
    rw [List.map_cons, List.sum_cons] at h
    rw [pickByStake, pick, Nat.mod_eq_of_lt (by omega), ih (by omega)]

section Eligible

variable (validators : List Validator)

/-- The validators with stake, in the order of their addresses. -/
def eligibleValidators : List Validator :=
  sortByKey compare Validator.address (validators.filter fun validator => 0 < validator.stake)

/-- The stakes of the eligible validators together. -/
def eligibleStake : ℕ := ((eligibleValidators validators).map fun v => v.stake.toNat).sum

theorem eligibleValidators_perm :
    (eligibleValidators validators).Perm (validators.filter fun v => 0 < v.stake) :=
  sortByKey_perm _ _ _

theorem pairwise_eligibleValidators :
    (eligibleValidators validators).Pairwise fun left right =>
      (compare left.address right.address).isLE := pairwise_sortByKey _ _ _

theorem pos_of_mem_eligibleValidators {v : Validator} (h : v ∈ eligibleValidators validators) :
    v ∈ validators ∧ 0 < v.stake := by
  have hmem := (eligibleValidators_perm validators).subset h
  rw [List.mem_filter, decide_eq_true_eq] at hmem
  exact hmem

theorem eligibleStake_lt (hlength : validators.length < 2 ^ 64) :
    eligibleStake validators < 2 ^ 128 := by
  have hle : eligibleStake validators ≤ activeStake validators := by
    rw [eligibleStake, ((eligibleValidators_perm validators).map _).sum_eq]
    exact Quorum.weight_le_sum
  exact Nat.lt_of_le_of_lt hle (activeStake_lt hlength)

/-- There is stake to draw from when there is an eligible validator. -/
theorem eligibleStake_pos (h : eligibleValidators validators ≠ []) :
    0 < eligibleStake validators := by
  obtain ⟨v, hv⟩ := List.exists_mem_of_ne_nil _ h
  have hstake := UInt64.lt_iff_toNat_lt.mp (pos_of_mem_eligibleValidators validators hv).2
  exact List.sum_pos_iff_exists_pos_nat.mpr ⟨_, List.mem_map_of_mem hv, hstake⟩

end Eligible

/-- **The draw** fails when nobody is eligible, and otherwise returns the holder of the lot whose
number is the draw. -/
theorem selectProposerBySeed_eq {validators : List Validator}
    (hfits : eligibleStake validators < 2 ^ 128) (seed : Bytes32) :
    selectProposerBySeed validators seed =
      if eligibleValidators validators = [] then .error .noEligibleValidators
      else (pick (fun v => v.stake.toNat) (drawOfSeed seed % eligibleStake validators) 0
        (eligibleValidators validators)).okOr .noneSelected := by
  unfold selectProposerBySeed
  dsimp only
  have hnil : eligibleValidators validators = [] ↔
      (validators.filter fun v => 0 < v.stake) = [] := by
    rw [← List.length_eq_zero_iff, (eligibleValidators_perm validators).length_eq,
      List.length_eq_zero_iff]
  by_cases hempty : eligibleValidators validators = []
  · rw [if_pos hempty, ensure, if_neg (not_not.mpr (hnil.mp hempty))]
    rfl
  · have htotal : ((eligibleValidators validators).map fun validator =>
        validator.stake.toNat).sum % 2 ^ 128 = eligibleStake validators := Nat.mod_eq_of_lt hfits
    have hsum : 0 + ((eligibleValidators validators).map fun v => v.stake.toNat).sum < 2 ^ 128 := by
      rwa [Nat.zero_add]
    have hloop := pickByStake_eq_pick Validator.stake (drawOfSeed seed % eligibleStake validators)
      hsum
    rw [if_neg hempty, ensure, if_pos (hnil.not.mp hempty), ← hloop]
    rw [← eligibleValidators, htotal, ensure, if_pos (eligibleStake_pos validators hempty).ne']
    rfl

/-! ## The lots of a validator -/

/-- The place at which the loop over the validators stops. -/
def selectedPlace (eligible : List Validator) (draw : ℕ) : Option ℕ :=
  (pickByStake (fun e : Validator × ℕ => e.1.stake) draw 0 eligible.zipIdx).map Prod.snd

/-- The stake of the validators before a place. -/
def stakeBefore (eligible : List Validator) (i : ℕ) : ℕ :=
  ((eligible.take i).map fun v => v.stake.toNat).sum

section Places

variable {eligible : List Validator}
  (hfits : (eligible.map fun v => v.stake.toNat).sum < 2 ^ 128)
include hfits

theorem selectedPlace_eq_pick (draw : ℕ) : selectedPlace eligible draw =
    (pick (fun e : Validator × ℕ => e.1.stake.toNat) draw 0 eligible.zipIdx).map Prod.snd := by
  have hsum : (eligible.zipIdx.map fun e => e.1.stake.toNat).sum =
      (eligible.map fun v => v.stake.toNat).sum := by
    rw [← Function.comp_def (fun v : Validator => v.stake.toNat), ← List.map_map,
      List.zipIdx_map_fst]
  rw [selectedPlace, pickByStake_eq_pick _ _ (by rwa [hsum, Nat.zero_add])]

/-- **The lots of a validator**: the loop stops at its place for the draws from the stake before it
up to its own stake added. -/
theorem selectedPlace_eq_some_iff {draw i : ℕ} (hi : i < eligible.length) :
    selectedPlace eligible draw = some i ↔
      stakeBefore eligible i ≤ draw ∧ draw < stakeBefore eligible (i + 1) := by
  rw [selectedPlace_eq_pick hfits, Option.map_eq_some_iff]
  constructor
  · rintro ⟨⟨v, j⟩, hpick, rfl⟩
    obtain ⟨i, hj, -, hle, hlt⟩ :=
      (pick_zipIdx_eq_some_iff (fun v : Validator => v.stake.toNat) eligible draw.zero_le v j).mp
        hpick
    rw [Nat.zero_add] at hj hle hlt
    subst hj
    exact ⟨hle, hlt⟩
  · rintro ⟨hle, hlt⟩
    refine ⟨(eligible[i], i), (pick_zipIdx_eq_some_iff (fun v : Validator => v.stake.toNat)
      eligible draw.zero_le _ i).mpr ⟨i, (Nat.zero_add i).symm, List.getElem?_eq_getElem hi, ?_⟩,
      rfl⟩
    rw [Nat.zero_add, Nat.zero_add]
    exact ⟨hle, hlt⟩

/-- What the loop picks is at the place at which it stops. -/
theorem exists_selectedPlace {draw : ℕ}
    (hdraw : draw < (eligible.map fun v => v.stake.toNat).sum) :
    ∃ i, ∃ hi : i < eligible.length, selectedPlace eligible draw = some i ∧
      pick (fun v => v.stake.toNat) draw 0 eligible = some eligible[i] := by
  obtain ⟨v, -, hpick⟩ := exists_pick_eq_some (fun v : Validator => v.stake.toNat) hdraw
  have hmap := pick_map (fun v : Validator => v.stake.toNat) Prod.fst draw 0 eligible.zipIdx
  rw [List.zipIdx_map_fst, hpick] at hmap
  obtain ⟨⟨v', j⟩, htagged, rfl⟩ := Option.map_eq_some_iff.mp hmap.symm
  obtain ⟨i, hj, hi, -, -⟩ :=
    (pick_zipIdx_eq_some_iff (fun v : Validator => v.stake.toNat) eligible draw.zero_le v' j).mp
      htagged
  rw [Nat.zero_add] at hj
  subst hj
  obtain ⟨hlt, rfl⟩ := List.getElem?_eq_some_iff.mp hi
  refine ⟨j, hlt, ?_, hpick⟩
  rw [selectedPlace_eq_pick hfits]
  exact Option.map_eq_some_iff.mpr ⟨_, htagged, rfl⟩

/-- A validator has as many lots as it has stake. -/
theorem card_selectedPlace {i : ℕ} (hi : i < eligible.length) :
    ((Finset.range (eligible.map fun v => v.stake.toNat).sum).filter fun draw =>
      selectedPlace eligible draw = some i).card = eligible[i].stake.toNat := by
  simp only [selectedPlace_eq_some_iff hfits hi]
  exact card_filter_offset (fun v : Validator => v.stake.toNat) eligible hi

end Places

/-- **The proposer is drawn by stake**: with a validator that has stake, every seed draws one. In
the order of the addresses, the draw stops at a place exactly for the residues from the stake before
the place up to the stake of its validator added, so that exactly as many residues stop there as the
validator has stake. A validator without stake is never drawn. -/
theorem proposer_drawn_by_stake (validators : List Validator)
    (hlength : validators.length < 2 ^ 64) (hstake : ∃ v ∈ validators, 0 < v.stake) :
    let eligible := eligibleValidators validators
    let total := (eligible.map fun v => v.stake.toNat).sum
    (eligible.Perm (validators.filter fun v => 0 < v.stake) ∧
      eligible.Pairwise fun left right => (compare left.address right.address).isLE) ∧
    (∀ seed, ∃ i, ∃ hi : i < eligible.length,
      selectedPlace eligible (drawOfSeed seed % total) = some i ∧
        selectProposerBySeed validators seed = .ok eligible[i]) ∧
    (∀ draw < total, ∀ i < eligible.length, selectedPlace eligible draw = some i ↔
      stakeBefore eligible i ≤ draw ∧ draw < stakeBefore eligible (i + 1)) ∧
    (∀ i, ∀ hi : i < eligible.length, ((Finset.range total).filter fun draw =>
      selectedPlace eligible draw = some i).card = eligible[i].stake.toNat) ∧
    ∀ seed v, selectProposerBySeed validators seed = .ok v → v ∈ validators ∧ 0 < v.stake := by
  intro eligible total
  have hfits : total < 2 ^ 128 := eligibleStake_lt validators hlength
  have hne : eligibleValidators validators ≠ [] := by
    obtain ⟨v, hv, hpos⟩ := hstake
    have hmem : v ∈ validators.filter fun v => 0 < v.stake :=
      List.mem_filter.mpr ⟨hv, decide_eq_true hpos⟩
    exact List.ne_nil_of_mem ((eligibleValidators_perm validators).symm.subset hmem)
  have hdrawn : ∀ seed, ∃ i, ∃ hi : i < eligible.length,
      selectedPlace eligible (drawOfSeed seed % total) = some i ∧
        selectProposerBySeed validators seed = .ok eligible[i] := by
    intro seed
    obtain ⟨i, hi, hplace, hpick⟩ := exists_selectedPlace hfits
      (Nat.mod_lt (drawOfSeed seed) (eligibleStake_pos validators hne))
    refine ⟨i, hi, hplace, ?_⟩
    rw [selectProposerBySeed_eq hfits, if_neg hne]
    exact Option.okOr_eq_ok.mpr hpick
  refine ⟨⟨eligibleValidators_perm validators, pairwise_eligibleValidators validators⟩, hdrawn,
    fun draw _ i hi => selectedPlace_eq_some_iff hfits hi,
    fun i hi => card_selectedPlace hfits hi, fun seed v hv => ?_⟩
  obtain ⟨i, hi, -, hselected⟩ := hdrawn seed
  rw [hv] at hselected
  cases hselected
  exact pos_of_mem_eligibleValidators validators (List.getElem_mem hi)

def alice : Validator := ⟨utf8 "alice", 10, 100⟩

def bob : Validator := ⟨utf8 "bob", 20, 200⟩

def carol : Validator := ⟨utf8 "carol", 30, 300⟩

theorem eligibleValidators_sample :
    eligibleValidators [alice, bob, carol] = [alice, bob, carol] := by
  have hfilter : ([alice, bob, carol].filter fun v => 0 < v.stake) = [alice, bob, carol] := by
    decide
  rw [eligibleValidators, hfilter]
  exact List.mergeSort_of_pairwise (by decide)

/-- The last lot of the second validator. -/
theorem bob_drawn : [alice, bob, carol].length < 2 ^ 64 ∧
    (∃ v ∈ [alice, bob, carol], 0 < v.stake) ∧
    selectProposerBySeed [alice, bob, carol] ⟨beBytes 16 29 ++ beBytes 16 0, by simp⟩ =
      .ok bob := by
  have hlength : [alice, bob, carol].length < 2 ^ 64 := by decide
  have hstake : ∃ v ∈ [alice, bob, carol], 0 < v.stake := ⟨alice, by simp, by decide⟩
  refine ⟨hlength, hstake, ?_⟩
  obtain ⟨-, hdrawn, hplace, -, -⟩ :=
    proposer_drawn_by_stake [alice, bob, carol] hlength hstake
  simp only [eligibleValidators_sample] at hdrawn hplace
  obtain ⟨i, hi, hselected, hok⟩ := hdrawn ⟨beBytes 16 29 ++ beBytes 16 0, by simp⟩
  have hdraw : drawOfSeed ⟨beBytes 16 29 ++ beBytes 16 0, by simp⟩ %
      ([alice, bob, carol].map fun v => v.stake.toNat).sum = 29 := by decide
  rw [hdraw, (hplace 29 (by decide) 1 (by decide)).mpr (by decide)] at hselected
  cases hselected
  exact hok

/-! ## Agreement -/

section Agreement

variable {validators supplied : List Validator}
  (hperm : (supplied.filter fun v => 0 < v.stake).Perm (validators.filter fun v => 0 < v.stake))
include hperm

theorem eligibleValidators_perm_of_perm :
    (eligibleValidators supplied).Perm (eligibleValidators validators) :=
  ((eligibleValidators_perm supplied).trans hperm).trans (eligibleValidators_perm validators).symm

theorem eligibleStake_eq_of_perm : eligibleStake supplied = eligibleStake validators :=
  ((eligibleValidators_perm_of_perm hperm).map _).sum_eq

/-- The addresses of the lots do not depend on the order of the validators. -/
theorem map_lots_eligibleValidators :
    (lots (fun v => v.stake.toNat) (eligibleValidators supplied)).map Validator.address =
      (lots (fun v => v.stake.toNat) (eligibleValidators validators)).map Validator.address := by
  refine map_lots_eq_of_perm (r := fun left right => (compare left right).isLE) _
    (fun address => ?_) (fun left right hle hge => ?_) (eligibleValidators_perm_of_perm hperm)
    (pairwise_eligibleValidators supplied) (pairwise_eligibleValidators validators)
  · have hself : compare address address = .eq := Std.ReflCmp.compare_self
    rw [hself]
    rfl
  · exact Std.LawfulEqCmp.eq_of_compare (Std.OrientedCmp.isLE_antisymm hle hge)

/-- Both draws fail, or they return validators with one address. -/
theorem selectProposerBySeed_agree (hfits : eligibleStake validators < 2 ^ 128) (seed : Bytes32) :
    (∃ error, selectProposerBySeed supplied seed = .error error ∧
        selectProposerBySeed validators seed = .error error) ∨
      ∃ v v', selectProposerBySeed supplied seed = .ok v ∧
        selectProposerBySeed validators seed = .ok v' ∧ v.address = v'.address := by
  have hstake := eligibleStake_eq_of_perm hperm
  rw [selectProposerBySeed_eq hfits, selectProposerBySeed_eq (hstake ▸ hfits), hstake]
  by_cases hnil : eligibleValidators validators = []
  · have hnil' : eligibleValidators supplied = [] :=
      (hnil ▸ eligibleValidators_perm_of_perm hperm).eq_nil
    rw [if_pos hnil, if_pos hnil']
    exact .inl ⟨_, rfl, rfl⟩
  · have hnil' : eligibleValidators supplied ≠ [] := fun h =>
      hnil (h ▸ eligibleValidators_perm_of_perm hperm).symm.eq_nil
    rw [if_neg hnil, if_neg hnil', pick_eq_getElem? _ _ (Nat.zero_le _),
      pick_eq_getElem? _ _ (Nat.zero_le _), Nat.sub_zero]
    have hdraw := Nat.mod_lt (drawOfSeed seed) (eligibleStake_pos validators hnil)
    have haddress := congrArg (fun addresses =>
      addresses[drawOfSeed seed % eligibleStake validators]?) (map_lots_eligibleValidators hperm)
    simp only [List.getElem?_map] at haddress
    have hlot : drawOfSeed seed % eligibleStake validators <
        (lots (fun v => v.stake.toNat) (eligibleValidators validators)).length := by
      rwa [length_lots]
    rw [List.getElem?_eq_getElem hlot, Option.map_some] at haddress
    obtain ⟨v, hv, haddress⟩ := Option.map_eq_some_iff.mp haddress
    rw [hv, List.getElem?_eq_getElem hlot]
    exact .inr ⟨v, _, rfl, rfl, haddress⟩

/-- Without a repeated address, both draws are the same. -/
theorem selectProposerBySeed_eq_of_perm
    (hdistinct : ((validators.filter fun v => 0 < v.stake).map Validator.address).Nodup)
    (hfits : eligibleStake validators < 2 ^ 128) (seed : Bytes32) :
    selectProposerBySeed supplied seed = selectProposerBySeed validators seed := by
  have heligible : eligibleValidators validators = eligibleValidators supplied :=
    sortByKey_eq_of_perm compare Validator.address hperm.symm hdistinct
  have hstake := eligibleStake_eq_of_perm hperm
  rw [selectProposerBySeed_eq hfits, selectProposerBySeed_eq (hstake ▸ hfits), hstake, heligible]

end Agreement

/-- **All nodes agree on the proposer**: for validators that are the same up to their order and to
those without stake, both draws fail or return validators with one address; and where no address
with stake is repeated, they return the same validator. -/
theorem proposer_agreed (P : Primitives) (validators supplied : List Validator)
    (hlength : validators.length < 2 ^ 64)
    (hperm : (supplied.filter fun v => 0 < v.stake).Perm (validators.filter fun v => 0 < v.stake))
    (previousBlockHash : Bytes) (height : UInt64) :
    ((∃ error, selectProposer P supplied previousBlockHash height = .error error ∧
        selectProposer P validators previousBlockHash height = .error error) ∨
      ∃ v v', selectProposer P supplied previousBlockHash height = .ok v ∧
        selectProposer P validators previousBlockHash height = .ok v' ∧ v.address = v'.address) ∧
    (((validators.filter fun v => 0 < v.stake).map Validator.address).Nodup →
      selectProposer P supplied previousBlockHash height =
        selectProposer P validators previousBlockHash height) := by
  have hfits := eligibleStake_lt validators hlength
  exact ⟨selectProposerBySeed_agree hperm hfits _,
    fun hdistinct => selectProposerBySeed_eq_of_perm hperm hdistinct hfits _⟩

/-- Another order, and a validator without stake. -/
theorem sample_proposer_agreed :
    [alice, bob, carol].length < 2 ^ 64 ∧
      (([carol, ⟨utf8 "dave", 0, 0⟩, alice, bob] : List Validator).filter
        fun v => 0 < v.stake).Perm ([alice, bob, carol].filter fun v => 0 < v.stake) ∧
      selectProposer (.recorded []) [carol, ⟨utf8 "dave", 0, 0⟩, alice, bob]
          (List.replicate 32 11) 7 =
        selectProposer (.recorded []) [alice, bob, carol] (List.replicate 32 11) 7 := by
  have hperm : (([carol, ⟨utf8 "dave", 0, 0⟩, alice, bob] : List Validator).filter
      fun v => 0 < v.stake).Perm ([alice, bob, carol].filter fun v => 0 < v.stake) := by decide
  exact ⟨by decide, hperm, (proposer_agreed (.recorded []) [alice, bob, carol] _ (by decide) hperm
    (List.replicate 32 11) 7).2 (by decide)⟩

end Prims
