import Mathlib.Algebra.BigOperators.Group.Finset.Piecewise
import Mathlib.Algebra.Order.BigOperators.Group.Finset
import Mathlib.Algebra.Order.Ring.Nat
import Prims.Consensus.MempoolRuns

/-!
# The selection for a block

A block takes as many transactions as it has room for, and of every sender at most its share. The
selection loses nothing by going through the partitions one after the other: the transactions of a
sender are all in one of them, so that a choice that is maximal in every partition is maximal
altogether.

## Main definitions

* `Chosen budget pending selected rest`: a maximal choice under the caps
* `Mempool.pending`: the transactions of all partitions
* `Mempool.takeStep`: what the loop over the partitions does with one of them
* `withinShare`, `Mempool.selectedForBlock`: the transactions that a block takes, as a list

## Main results

* `Chosen.length_eq`: how many transactions a maximal choice has
* `Chosen.append`: choices from lists without a common sender
* `selected_selectForBlock`, `Mempool.takeForBlock_fst`: what a partition and a client select
* `selection_is_maximal`: the selection from every mempool that a run leaves
-/

namespace Prims

/-! ## Maximal choices -/

/-- **A maximal choice under the caps**: of every sender the oldest transactions are chosen, at most
its share, and no more than the budget together; and unless the budget is used up, what is left of a
sender is left because the sender has its share. -/
structure Chosen (budget : ℕ) (pending selected rest : List Transaction) : Prop where
  order : ∀ sender, ofSender sender selected ++ ofSender sender rest = ofSender sender pending
  capped : ∀ sender, (ofSender sender selected).length ≤ maxTransactionsPerAddressPerBlock
  bounded : selected.length ≤ budget
  maximal : selected.length < budget → ∀ sender, ofSender sender rest = [] ∨
    maxTransactionsPerAddressPerBlock ≤ (ofSender sender selected).length
  sublist : rest.Sublist pending

/-- Where there is no budget left, nothing is chosen. -/
theorem Chosen.nothing (pending : List Transaction) : Chosen 0 pending [] pending where
  order _ := rfl
  capped _ := Nat.zero_le _
  bounded := Nat.le_refl 0
  maximal h := absurd h (Nat.lt_irrefl 0)
  sublist := List.Sublist.refl pending

/-- The number of transactions, counted by senders. -/
theorem length_eq_sum_ofSender {l : List Transaction} {senders : Finset Bytes}
    (h : ∀ transaction ∈ l, transaction.sender ∈ senders) :
    l.length = ∑ sender ∈ senders, (ofSender sender l).length := by
  induction l with
  | nil => exact (Finset.sum_eq_zero fun _ _ => rfl).symm
  | cons transaction l ih =>
    rw [List.forall_mem_cons] at h
    have hcons : ∀ sender, (ofSender sender (transaction :: l)).length =
        (if transaction.sender = sender then 1 else 0) + (ofSender sender l).length := by
      intro sender
      rw [← List.singleton_append, ofSender_append, ofSender_singleton, List.length_append]
      split <;> rfl
    simp only [hcons]
    rw [Finset.sum_add_distrib, Finset.sum_ite_eq, if_pos h.1, ← ih h.2, List.length_cons,
      Nat.add_comm]

section Choices

variable {budget : ℕ} {pending selected rest : List Transaction}

theorem Chosen.length_add (h : Chosen budget pending selected rest) (sender : Bytes) :
    (ofSender sender selected).length + (ofSender sender rest).length =
      (ofSender sender pending).length := by
  rw [← List.length_append, h.order]

theorem Chosen.mem_senders (h : Chosen budget pending selected rest) {transaction : Transaction}
    (hmem : transaction ∈ selected) :
    transaction.sender ∈ (pending.map Transaction.sender).toFinset := by
  have hself : transaction ∈ ofSender transaction.sender pending := by
    rw [← h.order]
    exact List.mem_append_left _ (List.mem_filter.mpr ⟨hmem, decide_eq_true rfl⟩)
  exact List.mem_toFinset.mpr (List.mem_map_of_mem (List.mem_of_mem_filter hself))

/-- **How many transactions are chosen**: the budget, or the shares of all senders. -/
theorem Chosen.length_eq (h : Chosen budget pending selected rest) :
    selected.length = min budget (∑ sender ∈ (pending.map Transaction.sender).toFinset,
      min maxTransactionsPerAddressPerBlock (ofSender sender pending).length) := by
  have hsum := length_eq_sum_ofSender fun transaction hmem => h.mem_senders hmem
  have hle : selected.length ≤ ∑ sender ∈ (pending.map Transaction.sender).toFinset,
      min maxTransactionsPerAddressPerBlock (ofSender sender pending).length := by
    rw [hsum]
    refine Finset.sum_le_sum fun sender _ => le_min (h.capped sender) ?_
    have := h.length_add sender
    omega
  rcases Nat.lt_or_ge selected.length budget with hroom | hfull
  · have heq : selected.length = ∑ sender ∈ (pending.map Transaction.sender).toFinset,
        min maxTransactionsPerAddressPerBlock (ofSender sender pending).length := by
      rw [hsum]
      refine Finset.sum_congr rfl fun sender _ => ?_
      have hadd := h.length_add sender
      have hcap := h.capped sender
      rcases h.maximal hroom sender with hnil | hshare
      · rw [hnil, List.length_nil] at hadd
        omega
      · omega
    rw [← heq, min_eq_right hroom.le]
  · rw [min_eq_left (hfull.trans hle)]
    exact Nat.le_antisymm h.bounded hfull

end Choices

/-- **Choices from lists without a common sender**, the second with what the first leaves of the
budget, are a choice from both. -/
theorem Chosen.append {budget : ℕ} {pending₁ pending₂ selected₁ selected₂ rest₁ rest₂ :
      List Transaction} (h₁ : Chosen budget pending₁ selected₁ rest₁)
    (h₂ : Chosen (budget - selected₁.length) pending₂ selected₂ rest₂)
    (hdisjoint : ∀ sender, ofSender sender pending₁ = [] ∨ ofSender sender pending₂ = []) :
    Chosen budget (pending₁ ++ pending₂) (selected₁ ++ selected₂) (rest₁ ++ rest₂) := by
  have hnil₁ : ∀ sender, ofSender sender pending₁ = [] →
      ofSender sender selected₁ = [] ∧ ofSender sender rest₁ = [] := fun sender hnil =>
    List.append_eq_nil_iff.mp ((h₁.order sender).trans hnil)
  have hnil₂ : ∀ sender, ofSender sender pending₂ = [] →
      ofSender sender selected₂ = [] ∧ ofSender sender rest₂ = [] := fun sender hnil =>
    List.append_eq_nil_iff.mp ((h₂.order sender).trans hnil)
  have hbounded₁ := h₁.bounded
  have hbounded₂ := h₂.bounded
  refine ⟨fun sender => ?_, fun sender => ?_, ?_, fun hroom sender => ?_,
    h₁.sublist.append h₂.sublist⟩
  · rw [ofSender_append, ofSender_append, ofSender_append, ← h₁.order, ← h₂.order]
    rcases hdisjoint sender with hnil | hnil
    · rw [(hnil₁ sender hnil).1, (hnil₁ sender hnil).2]
      rfl
    · rw [(hnil₂ sender hnil).1, (hnil₂ sender hnil).2]
      simp only [List.append_nil]
  · rw [ofSender_append]
    rcases hdisjoint sender with hnil | hnil
    · rw [(hnil₁ sender hnil).1, List.nil_append]
      exact h₂.capped sender
    · rw [(hnil₂ sender hnil).1, List.append_nil]
      exact h₁.capped sender
  · rw [List.length_append]
    omega
  · rw [List.length_append] at hroom
    rw [ofSender_append, ofSender_append]
    rcases hdisjoint sender with hnil | hnil
    · rw [(hnil₁ sender hnil).1, (hnil₁ sender hnil).2, List.nil_append, List.nil_append]
      exact h₂.maximal (by omega) sender
    · rw [(hnil₂ sender hnil).1, (hnil₂ sender hnil).2, List.append_nil, List.append_nil]
      exact h₁.maximal (by omega) sender

/-! ## One partition -/

/-- The counters of the loop after the transactions `seen`. -/
structure Selection.Counted (s : Selection) (seen : List Transaction) : Prop where
  count : ∀ sender, s.selectedPerSender sender = (ofSender sender s.selected).length
  capped : ∀ sender, s.selectedPerSender sender ≤ maxTransactionsPerAddressPerBlock
  sublist : s.remaining.Sublist seen

theorem Selection.Counted.skip {s : Selection} {seen : List Transaction} (h : s.Counted seen)
    (transaction : Transaction) :
    Selection.Counted { s with remaining := s.remaining ++ [transaction] }
      (seen ++ [transaction]) :=
  ⟨h.count, h.capped, h.sublist.append (List.Sublist.refl _)⟩

theorem Selection.Counted.add {s : Selection} {seen : List Transaction} (h : s.Counted seen)
    (maxTransactions : ℕ) (transaction : Transaction) :
    (s.add maxTransactions transaction).Counted (seen ++ [transaction]) := by
  unfold Selection.add
  split
  · exact h.skip transaction
  · split
    · next hshare =>
      refine ⟨fun sender => ?_, fun sender => ?_, h.sublist.trans (List.sublist_append_left _ _)⟩
      · show Function.update s.selectedPerSender transaction.sender _ sender =
          (ofSender sender (s.selected ++ [transaction])).length
        rw [ofSender_append, ofSender_singleton, List.length_append, ← h.count]
        by_cases hsender : sender = transaction.sender
        · subst hsender
          rw [Function.update_self, if_pos rfl]
          rfl
        · rw [Function.update_of_ne hsender, if_neg (Ne.symm hsender)]
          rfl
      · show Function.update s.selectedPerSender transaction.sender _ sender ≤ _
        by_cases hsender : sender = transaction.sender
        · subst hsender
          rw [Function.update_self]
          exact hshare
        · rw [Function.update_of_ne hsender]
          exact h.capped sender
    · exact h.skip transaction

theorem selectForBlock_counted (maxTransactions : ℕ) (transactions : List Transaction) :
    (selectForBlock maxTransactions transactions).Counted transactions :=
  selectForBlock_induction ⟨fun _ => rfl, fun _ => Nat.zero_le _, List.Sublist.refl _⟩
    (fun _ _ transaction h => h.add maxTransactions transaction) transactions

/-- **The selection of a partition is a maximal choice.** -/
theorem selectForBlock_chosen (maxTransactions : ℕ) (transactions : List Transaction) :
    Chosen maxTransactions transactions (selectForBlock maxTransactions transactions).selected
      (selectForBlock maxTransactions transactions).remaining := by
  have hsorted := selectForBlock_sorted maxTransactions transactions
  have hcounted := selectForBlock_counted maxTransactions transactions
  refine ⟨hsorted.order, fun sender => ?_, hsorted.bounded, fun hroom sender => ?_,
    hcounted.sublist⟩
  · rw [← hcounted.count]
    exact hcounted.capped sender
  · rw [← hcounted.count]
    by_cases hnil : ofSender sender (selectForBlock maxTransactions transactions).remaining = []
    · exact .inl hnil
    · exact .inr ((hsorted.closed sender hnil).resolve_left hroom.ne)

/-- The transactions within the share of their sender, after some others: those with fewer than one
hundred of their sender before them. -/
def withinShare (before : List Transaction) : List Transaction → List Transaction
  | [] => []
  | transaction :: transactions =>
    if (ofSender transaction.sender before).length < maxTransactionsPerAddressPerBlock then
      transaction :: withinShare (before ++ [transaction]) transactions
    else withinShare (before ++ [transaction]) transactions

theorem withinShare_concat (before transactions : List Transaction) (transaction : Transaction) :
    withinShare before (transactions ++ [transaction]) = withinShare before transactions ++
      if (ofSender transaction.sender (before ++ transactions)).length <
        maxTransactionsPerAddressPerBlock then [transaction] else [] := by
  induction transactions generalizing before with
  | nil =>
    rw [List.nil_append, withinShare, withinShare, List.append_nil, withinShare, List.nil_append]
  | cons first transactions ih =>
    rw [List.cons_append, withinShare, withinShare, ih, List.append_assoc, List.singleton_append]
    split_ifs <;> rfl

/-- One round of the loop selects a transaction when there is room in the block and its sender has
not had its share. -/
theorem Selection.selected_add {maxTransactions : ℕ} {s : Selection} {seen : List Transaction}
    (hsorted : s.Sorted maxTransactions seen) (hcounted : s.Counted seen)
    (transaction : Transaction) :
    (s.add maxTransactions transaction).selected = s.selected ++
      if s.selected.length < maxTransactions ∧
        (ofSender transaction.sender seen).length < maxTransactionsPerAddressPerBlock then
        [transaction]
      else [] := by
  have hbounded := hsorted.bounded
  unfold Selection.add
  split
  · next hfull => rw [if_neg fun h => h.1.ne hfull, List.append_nil]
  · next hroom =>
    have hlength := congrArg List.length (hsorted.order transaction.sender)
    rw [List.length_append, ← hcounted.count] at hlength
    split
    · next hshare =>
      -- nothing of the sender remains, so what was seen of it was selected
      have hnone : ofSender transaction.sender s.remaining = [] := by
        by_contra hne
        rcases hsorted.closed _ hne with hfull | hshare'
        · exact hroom hfull
        · omega
      rw [hnone, List.length_nil] at hlength
      rw [if_pos ⟨by omega, by omega⟩]
    · next hshare => rw [if_neg fun h => by omega, List.append_nil]

/-- **What a partition selects**: the first transactions within the share of their sender. -/
theorem selected_selectForBlock (maxTransactions : ℕ) (transactions : List Transaction) :
    (selectForBlock maxTransactions transactions).selected =
      (withinShare [] transactions).take maxTransactions := by
  induction transactions using List.reverseRecOn with
  | nil => exact List.take_nil.symm
  | append_singleton transactions transaction ih =>
    have hadd := Selection.selected_add (selectForBlock_sorted maxTransactions transactions)
      (selectForBlock_counted maxTransactions transactions) transaction
    rw [selectForBlock, List.foldl_concat, ← selectForBlock, hadd, ih, withinShare_concat,
      List.nil_append, List.length_take, List.take_append]
    congr 1
    by_cases hshare : (ofSender transaction.sender transactions).length <
        maxTransactionsPerAddressPerBlock
    · rw [if_pos hshare]
      by_cases hroom : (withinShare [] transactions).length < maxTransactions
      · rw [if_pos ⟨by omega, hshare⟩, List.take_of_length_le (by simp; omega)]
      · rw [if_neg fun h => by omega, Nat.sub_eq_zero_of_le (not_lt.mp hroom), List.take_zero]
    · rw [if_neg hshare, if_neg fun h => hshare h.2, List.take_nil]

/-! ## The partitions one after the other -/

namespace Mempool

variable {n : ℕ}

/-- The transactions of all partitions. -/
def pending (mempool : Mempool n) : List Transaction := (List.finRange n).flatMap mempool

theorem pending_eq_nil {mempool : Mempool n}
    (h : ((List.finRange n).map fun i => (mempool i).length).sum = 0) : mempool.pending = [] := by
  rw [← List.length_eq_zero_iff, pending, List.length_flatMap]
  exact h

/-- What the loop over the partitions does with one of them. -/
def takeStep (maxTransactions : ℕ) (state : List Transaction × Mempool n) (i : Fin n) :
    List Transaction × Mempool n :=
  if state.1.length = maxTransactions then state
  else
    let selection := selectForBlock (maxTransactions - state.1.length) (state.2 i)
    (state.1 ++ selection.selected, Function.update state.2 i selection.remaining)

theorem run_takeLoop (maxTransactions : ℕ) (partitions : List (Fin n))
    (selected : List Transaction) (mempool : Mempool n) :
    Interaction.run handle (partitions.foldlM (fun selected partition =>
      if selected.length = maxTransactions then return selected
      else do
        let reply ← Interaction.query
          (partition, MempoolCommand.takeForBlock (maxTransactions - selected.length))
        return selected ++ reply.getTransactions) selected : MempoolProgram n _) mempool =
      partitions.foldl (takeStep maxTransactions) (selected, mempool) := by
  induction partitions generalizing selected mempool with
  | nil => rfl
  | cons i partitions ih =>
    rw [List.foldlM_cons, List.foldl_cons]
    by_cases hfull : selected.length = maxTransactions
    · have hstep : takeStep maxTransactions (selected, mempool) i = (selected, mempool) :=
        if_pos hfull
      rw [if_pos hfull, hstep]
      exact ih selected mempool
    · rw [if_neg hfull, takeStep, if_neg hfull]
      exact ih _ _

/-- **The selection of a client that is alone**: nothing when nothing may be taken or there is
nothing, and otherwise what the loop over the partitions takes. -/
theorem run_takeForBlock (maxTransactions : ℕ) (mempool : Mempool n) :
    (takeForBlock n maxTransactions).run handle mempool =
      if maxTransactions = 0 ∨ ((List.finRange n).map fun i => (mempool i).length).sum = 0 then
        ([], mempool)
      else (List.finRange n).foldl (takeStep maxTransactions) ([], mempool) := by
  have hlen : Interaction.run handle (len n) mempool = _ := run_len (List.finRange n) 0 mempool
  rw [Nat.zero_add] at hlen
  rw [takeForBlock, Interaction.run_bind_apply, hlen]
  dsimp only
  by_cases hmax : maxTransactions = 0
  · rw [if_pos hmax, if_pos (.inl hmax)]
    rfl
  · rw [if_neg hmax, Interaction.run_bind_apply, hlen]
    dsimp only
    by_cases htotal : ((List.finRange n).map fun i => (mempool i).length).sum = 0
    · rw [if_pos htotal, if_pos (.inr htotal)]
      rfl
    · rw [if_neg htotal, if_neg (not_or.mpr ⟨hmax, htotal⟩)]
      exact run_takeLoop maxTransactions (List.finRange n) [] mempool

/-- The transactions that a block takes: of those that are within the share of their sender, the
first ones, partition by partition. -/
def selectedForBlock (mempool : Mempool n) (maxTransactions : ℕ) : List Transaction :=
  ((List.finRange n).flatMap fun i => withinShare [] (mempool i)).take maxTransactions

/-- **One partition more** in the loop, when it still has its transactions. -/
theorem takeStep_fst {maxTransactions : ℕ} {before : Mempool n} {done : List (Fin n)}
    {state : List Transaction × Mempool n} {i : Fin n}
    (hstate : state.1 = (done.flatMap fun j => withinShare [] (before j)).take maxTransactions)
    (hi : state.2 i = before i) :
    (takeStep maxTransactions state i).1 =
      ((done ++ [i]).flatMap fun j => withinShare [] (before j)).take maxTransactions := by
  rw [List.flatMap_append, List.flatMap_singleton, List.take_append, ← hstate]
  have hlength := congrArg List.length hstate
  rw [List.length_take] at hlength
  rw [takeStep]
  split
  · next hfull => rw [Nat.sub_eq_zero_of_le (by omega), List.take_zero, List.append_nil]
  · next hroom =>
    have hrest : maxTransactions - state.1.length =
        maxTransactions - (done.flatMap fun j => withinShare [] (before j)).length := by omega
    dsimp only
    rw [selected_selectForBlock, hi, hrest]

theorem foldl_takeStep_fst {maxTransactions : ℕ} {before : Mempool n} (partitions : List (Fin n))
    {done : List (Fin n)} {state : List Transaction × Mempool n}
    (hstate : state.1 = (done.flatMap fun j => withinShare [] (before j)).take maxTransactions)
    (huntouched : ∀ i ∈ partitions, state.2 i = before i) (hnodup : partitions.Nodup) :
    (partitions.foldl (takeStep maxTransactions) state).1 =
      ((done ++ partitions).flatMap fun j => withinShare [] (before j)).take maxTransactions := by
  induction partitions generalizing done state with
  | nil => rw [List.foldl_nil, List.append_nil, hstate]
  | cons i partitions ih =>
    obtain ⟨hi, hnodup⟩ := List.nodup_cons.mp hnodup
    rw [List.foldl_cons, List.append_cons]
    refine ih (takeStep_fst hstate (huntouched i List.mem_cons_self)) (fun j hj => ?_) hnodup
    rw [takeStep]
    split
    · exact huntouched j (List.mem_cons_of_mem _ hj)
    · -- the step changes one partition, and no later one
      exact (Function.update_of_ne (by rintro rfl; exact hi hj) _ _).trans
        (huntouched j (List.mem_cons_of_mem _ hj))

/-- **What a client that is alone takes** from the mempool. -/
theorem takeForBlock_fst (maxTransactions : ℕ) (mempool : Mempool n) :
    ((takeForBlock n maxTransactions).run handle mempool).1 =
      mempool.selectedForBlock maxTransactions := by
  rw [run_takeForBlock, selectedForBlock]
  split
  · next hnothing =>
    rcases hnothing with rfl | hempty
    · exact List.take_zero.symm
    · have hnone : ((List.finRange n).flatMap fun i => withinShare [] (mempool i)) = [] := by
        refine List.flatMap_eq_nil_iff.mpr fun i hi => ?_
        rw [List.flatMap_eq_nil_iff.mp (pending_eq_nil hempty) i hi]
        rfl
      rw [hnone, List.take_nil]
  · have hloop : ((List.finRange n).foldl (takeStep maxTransactions) ([], mempool)).1 =
        (([] ++ List.finRange n).flatMap fun i => withinShare [] (mempool i)).take
          maxTransactions :=
      foldl_takeStep_fst (List.finRange n) List.take_nil.symm (fun _ _ => rfl)
        (List.nodup_finRange n)
    rwa [List.nil_append] at hloop

/-- The transactions of a sender are in the partition of the sender. -/
def Routed [NeZero n] (mempool : Mempool n) : Prop :=
  ∀ i, ∀ transaction ∈ mempool i, partitionForAddress n transaction.sender = i

/-- **The invariant of the loop** after the partitions `done`: what was taken is a maximal choice
from them, and the others are as they were. -/
structure TakenFrom (maxTransactions : ℕ) (before : Mempool n) (done : List (Fin n))
    (state : List Transaction × Mempool n) : Prop where
  chosen : Chosen maxTransactions (done.flatMap before) state.1 (done.flatMap state.2)
  untouched : ∀ i ∉ done, state.2 i = before i
  sublist : ∀ i, (state.2 i).Sublist (before i)

section Loop

variable [NeZero n] {maxTransactions : ℕ} {before : Mempool n} (hrouted : before.Routed)
include hrouted

/-- A partition has no sender in common with other ones. -/
theorem ofSender_disjoint {done : List (Fin n)} {i : Fin n} (hi : i ∉ done) (sender : Bytes) :
    ofSender sender (done.flatMap before) = [] ∨ ofSender sender (before i) = [] := by
  by_cases hsender : partitionForAddress n sender = i
  · left
    rw [ofSender, List.filter_eq_nil_iff]
    intro transaction hmem heq
    obtain ⟨j, hj, htransaction⟩ := List.mem_flatMap.mp hmem
    rw [decide_eq_true_eq] at heq
    rw [← heq, hrouted j transaction htransaction] at hsender
    exact hi (hsender ▸ hj)
  · right
    rw [ofSender, List.filter_eq_nil_iff]
    intro transaction hmem heq
    rw [decide_eq_true_eq] at heq
    exact hsender (heq ▸ hrouted i transaction hmem)

/-- One partition more. -/
theorem TakenFrom.step {done : List (Fin n)} {state : List Transaction × Mempool n}
    (h : TakenFrom maxTransactions before done state) {i : Fin n} (hi : i ∉ done) :
    TakenFrom maxTransactions before (done ++ [i]) (takeStep maxTransactions state i) := by
  have hdisjoint := ofSender_disjoint hrouted hi
  have hbefore := h.untouched i hi
  rw [takeStep]
  split
  · next hfull =>
    refine ⟨?_, fun j hj => h.untouched j fun hmem => hj (List.mem_append_left _ hmem), h.sublist⟩
    have hnothing := Chosen.nothing (before i)
    rw [← Nat.sub_self maxTransactions] at hnothing
    nth_rewrite 2 [← hfull] at hnothing
    have happend := h.chosen.append hnothing hdisjoint
    rw [List.flatMap_append, List.flatMap_append, List.flatMap_singleton, List.flatMap_singleton,
      hbefore]
    rwa [List.append_nil] at happend
  · have hselection := selectForBlock_chosen (maxTransactions - state.1.length) (before i)
    have happend := h.chosen.append hselection hdisjoint
    have hdone : done.flatMap (Function.update state.2 i
        (selectForBlock (maxTransactions - state.1.length) (before i)).remaining) =
          done.flatMap state.2 :=
      List.flatMap_congr fun j hj => Function.update_of_ne (by rintro rfl; exact hi hj) _ _
    rw [hbefore]
    refine ⟨?_, fun j hj => ?_, fun j => ?_⟩
    · rw [List.flatMap_append, List.flatMap_append, List.flatMap_singleton, List.flatMap_singleton]
      dsimp only
      rwa [hdone, Function.update_self]
    · rw [List.mem_append, List.mem_singleton, not_or] at hj
      exact (Function.update_of_ne hj.2 _ _).trans (h.untouched j hj.1)
    · dsimp only
      by_cases hj : j = i
      · subst hj
        rw [Function.update_self]
        exact hselection.sublist
      · rw [Function.update_of_ne hj]
        exact h.sublist j

theorem TakenFrom.foldl (partitions : List (Fin n)) {done : List (Fin n)}
    {state : List Transaction × Mempool n} (h : TakenFrom maxTransactions before done state)
    (hnodup : (done ++ partitions).Nodup) :
    TakenFrom maxTransactions before (done ++ partitions)
      (partitions.foldl (takeStep maxTransactions) state) := by
  induction partitions generalizing done state with
  | nil => rwa [List.append_nil]
  | cons i partitions ih =>
    have hi : i ∉ done := fun hmem =>
      (List.nodup_append.mp hnodup).2.2 i hmem i List.mem_cons_self rfl
    rw [List.append_cons] at hnodup ⊢
    exact ih (h.step hrouted hi) hnodup

/-- **The selection from a routed mempool** is a maximal choice from all its transactions, and every
partition keeps its order. -/
theorem takeForBlock_chosen (maxTransactions : ℕ) :
    Chosen maxTransactions before.pending
        ((takeForBlock n maxTransactions).run handle before).1
        (pending ((takeForBlock n maxTransactions).run handle before).2) ∧
      ∀ i, (((takeForBlock n maxTransactions).run handle before).2 i).Sublist (before i) := by
  rw [run_takeForBlock]
  split
  · next hnothing =>
    refine ⟨?_, fun i => List.Sublist.refl _⟩
    rcases hnothing with rfl | hempty
    · exact Chosen.nothing before.pending
    · rw [pending_eq_nil hempty]
      exact ⟨fun _ => rfl, fun _ => Nat.zero_le _, Nat.zero_le _, fun _ _ => .inl rfl,
        List.Sublist.refl _⟩
  · have hstart : TakenFrom maxTransactions before [] ([], before) :=
      ⟨⟨fun _ => rfl, fun _ => Nat.zero_le _, Nat.zero_le _, fun _ _ => .inl rfl,
        List.Sublist.refl _⟩, fun _ _ => rfl, fun _ => List.Sublist.refl _⟩
    have hend := hstart.foldl hrouted (List.finRange n) (List.nodup_finRange n)
    exact ⟨hend.chosen, hend.sublist⟩

end Loop

end Mempool

/-- **The selection is maximal under the caps.** For every number of partitions and every mempool
that a run leaves, a client that is alone gets as many transactions as the block has room for or as
the senders may have in it, at most one hundred of a sender. Of every sender it gets the oldest
ones, in order; and every partition keeps the rest in the order in which it was. -/
theorem selection_is_maximal (κ : Type) [DecidableEq κ] (partitionCount : ℕ)
    (events : List (MempoolEvent κ (partitionsFor partitionCount))) (maxTransactions : ℕ) :
    let s := MempoolSystem.run κ (partitionsFor partitionCount) events
    let before : Mempool (partitionsFor partitionCount) := fun i => (s.partitions i).transactions
    let outcome := (Mempool.takeForBlock (partitionsFor partitionCount) maxTransactions).run
      Mempool.handle before
    outcome.1.length = min maxTransactions
      (∑ sender ∈ (before.pending.map Transaction.sender).toFinset,
        min 100 (ofSender sender before.pending).length) ∧
    (∀ sender, (ofSender sender outcome.1).length ≤ 100) ∧
    (∀ sender, ofSender sender outcome.1 ++ ofSender sender outcome.2.pending =
      ofSender sender before.pending) ∧
    (outcome.1 ++ outcome.2.pending).Perm before.pending ∧
    ∀ i, (outcome.2 i).Sublist (before i) := by
  intro s before outcome
  have hrouted : before.Routed := (MempoolSystem.run_ordered events).partitions
  obtain ⟨hchosen, hsublist⟩ := Mempool.takeForBlock_chosen hrouted maxTransactions
  refine ⟨hchosen.length_eq, hchosen.capped, hchosen.order, ?_, hsublist⟩
  apply perm_of_ofSender
  intro sender
  rw [ofSender_append, hchosen.order]

end Prims
