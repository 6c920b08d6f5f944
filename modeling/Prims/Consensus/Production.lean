import Prims.Blockchain.Chain
import Prims.Consensus.Proposal
import Prims.Consensus.Selection

/-!
# Block production

A validator that is alone with its mempool adds transactions to it and proposes blocks from it,
every block on the hash of the one before. Its blocks are linked and signed, so a chain of them is
accepted if and only if all of them are small enough. No transaction is lost on the way from the
mempool to the chain and none comes twice, and the transactions of a sender are in the chain in the
order in which they were added. A proposal that leaves transactions behind takes as many as it may,
or a full share of some sender; so enough proposals bring everything into the chain.

## Main definitions

* `Production`, `Production.step`: the producer and its calls
* `Production.Sound`: the invariant of the runs

## Main results

* `produced_chain_carries`: what the chain of every run carries, and when it is accepted
* `production_completes`: with at most nine transactions in a block, everything is accepted
-/

namespace Prims

open Bincode

/-! ## What a choice and a mempool have -/

/-- **Progress**: a choice leaves nothing, or it uses up the budget or the share of a sender. -/
theorem Chosen.progress {budget : ℕ} {pending selected rest : List Transaction}
    (h : Chosen budget pending selected rest) :
    rest = [] ∨ min budget maxTransactionsPerAddressPerBlock ≤ selected.length := by
  rcases Nat.lt_or_ge selected.length budget with hroom | hfull
  · cases hrest : rest with
    | nil => exact .inl rfl
    | cons transaction rest' =>
      right
      have hshare : maxTransactionsPerAddressPerBlock ≤
          (ofSender transaction.sender selected).length := by
        refine (h.maximal hroom transaction.sender).resolve_left fun hnil => ?_
        have hmem : transaction ∈ ofSender transaction.sender rest :=
          List.mem_filter.mpr ⟨hrest ▸ List.mem_cons_self, decide_eq_true rfl⟩
        exact List.not_mem_nil (hnil ▸ hmem)
      calc min budget maxTransactionsPerAddressPerBlock
          ≤ maxTransactionsPerAddressPerBlock := min_le_right _ _
        _ ≤ (ofSender transaction.sender selected).length := hshare
        _ ≤ selected.length := List.length_filter_le _ _
  · exact .inr ((min_le_left _ _).trans hfull)

theorem Chosen.perm {budget : ℕ} {pending selected rest : List Transaction}
    (h : Chosen budget pending selected rest) : (selected ++ rest).Perm pending := by
  apply perm_of_ofSender
  intro sender
  rw [ofSender_append, h.order]

namespace Mempool

variable {n : ℕ} [NeZero n] {mempool : Mempool n}

/-- What a block leaves in the mempool. -/
def afterBlock (mempool : Mempool n) (maxTransactions : ℕ) : Mempool n :=
  ((takeForBlock n maxTransactions).run handle mempool).2

/-- The transactions of a sender are those in its partition. -/
theorem Routed.ofSender_pending (h : mempool.Routed) (sender : Bytes) :
    ofSender sender mempool.pending =
      ofSender sender (mempool (partitionForAddress n sender)) := by
  have hother : ∀ j, j ≠ partitionForAddress n sender → ofSender sender (mempool j) = [] := by
    intro j hj
    rw [ofSender, List.filter_eq_nil_iff]
    intro transaction hmem heq
    rw [decide_eq_true_eq] at heq
    exact hj ((h j transaction hmem).symm.trans (congrArg _ heq))
  obtain ⟨before, after, hsplit⟩ :=
    List.append_of_mem (List.mem_finRange (partitionForAddress n sender))
  have hnodup := List.nodup_finRange n
  rw [hsplit, List.nodup_append, List.nodup_cons] at hnodup
  have hnil : ∀ l : List (Fin n), partitionForAddress n sender ∉ l →
      ofSender sender (l.flatMap mempool) = [] := by
    intro l hl
    rw [ofSender, List.filter_flatMap, List.flatMap_eq_nil_iff]
    exact fun j hj => hother j fun heq => hl (heq ▸ hj)
  have hbefore : partitionForAddress n sender ∉ before := fun hmem =>
    hnodup.2.2 _ hmem _ List.mem_cons_self rfl
  rw [pending, hsplit, List.flatMap_append, List.flatMap_cons, ofSender_append, ofSender_append,
    hnil before hbefore, hnil after hnodup.2.1.1, List.nil_append, List.append_nil]

/-- The mempool with a transaction at the end of the partition of its sender. -/
def afterAdd (mempool : Mempool n) (transaction : Transaction) : Mempool n :=
  Function.update mempool (partitionForAddress n transaction.sender)
    (mempool (partitionForAddress n transaction.sender) ++ [transaction])

theorem run_addTransaction (transaction : Transaction) (mempool : Mempool n) :
    ((addTransaction n transaction).run handle mempool).2 = mempool.afterAdd transaction := rfl

theorem Routed.afterAdd (h : mempool.Routed) (transaction : Transaction) :
    (mempool.afterAdd transaction).Routed := by
  intro i transaction' hmem
  rw [Mempool.afterAdd] at hmem
  by_cases hi : i = partitionForAddress n transaction.sender
  · subst hi
    rw [Function.update_self, List.mem_append, List.mem_singleton] at hmem
    rcases hmem with hmem | rfl
    · exact h _ transaction' hmem
    · rfl
  · rw [Function.update_of_ne hi] at hmem
    exact h i transaction' hmem

theorem Routed.ofSender_afterAdd (h : mempool.Routed) (transaction : Transaction)
    (sender : Bytes) : ofSender sender (mempool.afterAdd transaction).pending =
      ofSender sender mempool.pending ++ ofSender sender [transaction] := by
  rw [(h.afterAdd transaction).ofSender_pending, h.ofSender_pending, Mempool.afterAdd]
  by_cases hsender : partitionForAddress n sender = partitionForAddress n transaction.sender
  · rw [hsender, Function.update_self, ofSender_append]
  · have hne : transaction.sender ≠ sender := by
      rintro rfl
      exact hsender rfl
    rw [Function.update_of_ne hsender, ofSender_singleton, if_neg hne, List.append_nil]

/-- What a block takes and what it leaves. -/
theorem Routed.chosen_block (h : mempool.Routed) (maxTransactions : ℕ) :
    Chosen maxTransactions mempool.pending (mempool.selectedForBlock maxTransactions)
      (mempool.afterBlock maxTransactions).pending := by
  rw [← takeForBlock_fst]
  exact (takeForBlock_chosen h maxTransactions).1

theorem Routed.afterBlock (h : mempool.Routed) (maxTransactions : ℕ) :
    (mempool.afterBlock maxTransactions).Routed := fun i transaction hmem =>
  h i transaction (((takeForBlock_chosen h maxTransactions).2 i).subset hmem)

end Mempool

/-! ## The producer -/

/-- What the producer is asked to do: a transaction comes in, or a block is due. -/
inductive ProductionCall where
  | addTransaction (transaction : Transaction)
  | proposeBlock (height timestamp : UInt64) (maxTransactions : ℕ)
  deriving DecidableEq, Repr

/-- The transactions that come in, in order. -/
def submitted (calls : List ProductionCall) : List Transaction :=
  calls.filterMap fun
    | .addTransaction transaction => some transaction
    | .proposeBlock .. => none

/-- How many transactions the proposals may take at least, if there are as many: no sender can hold
a block below its own share. -/
def allowance (calls : List ProductionCall) : ℕ :=
  (calls.map fun
    | .addTransaction _ => 0
    | .proposeBlock _ _ maxTransactions =>
      min maxTransactions maxTransactionsPerAddressPerBlock).sum

/-- The mempool of the producer and its chain: the hash of the last header and the blocks. -/
structure Production (n : ℕ) where
  mempool : Mempool n
  tip : Bytes
  blocks : List Block

/-- The transactions of the chain, in order. -/
def Production.included {n : ℕ} (s : Production n) : List Transaction :=
  s.blocks.flatMap Block.transactions

section Production

variable (P : Primitives) (proposer : Validator) (proposerSecretKey : Bytes32) {n : ℕ} [NeZero n]

namespace Production

/-- An empty mempool, and a chain that starts from a hash. -/
def start (n : ℕ) (genesis : Bytes) : Production n where
  mempool _ := []
  tip := genesis
  blocks := []

def step (s : Production n) : ProductionCall → Production n
  | .addTransaction transaction =>
    { s with mempool := ((Mempool.addTransaction n transaction).run Mempool.handle s.mempool).2 }
  | .proposeBlock height timestamp maxTransactions =>
    match (proposeBlock P proposer proposerSecretKey s.tip height timestamp maxTransactions).run
        s.mempool with
    | (.ok block, mempool) =>
      { mempool, tip := headerHash P block, blocks := s.blocks ++ [block] }
    | (.error _, mempool) => { s with mempool }

def run (s : Production n) (calls : List ProductionCall) : Production n :=
  calls.foldl (step P proposer proposerSecretKey) s

variable {P proposer proposerSecretKey} {s : Production n} {genesis : Bytes}

/-- A proposal that may not take anything does nothing. -/
theorem step_zero (s : Production n) (height timestamp : UInt64) :
    s.step P proposer proposerSecretKey (.proposeBlock height timestamp 0) = s := rfl

/-- **What a proposal does**: the block takes its choice from the mempool and names the last header,
and its own header is the last one then. -/
theorem step_proposeBlock (s : Production n) (height timestamp : UInt64) {maxTransactions : ℕ}
    (hmax : maxTransactions ≠ 0) :
    let block := proposedBlock P proposer proposerSecretKey s.tip height timestamp
      (s.mempool.selectedForBlock maxTransactions)
    s.step P proposer proposerSecretKey (.proposeBlock height timestamp maxTransactions) =
      { mempool := s.mempool.afterBlock maxTransactions
        tip := headerHash P block
        blocks := s.blocks ++ [block] } := by
  rw [← Mempool.takeForBlock_fst]
  intro block
  have hrun : (proposeBlock P proposer proposerSecretKey s.tip height timestamp
      maxTransactions).run s.mempool = (.ok block, s.mempool.afterBlock maxTransactions) := by
    rw [proposeBlock, ensure, if_pos hmax, Procedure.bind_run_ok (Procedure.lift_run _ _)]
    rfl
  rw [step, hrun]

/-- A call is a transaction that comes in, a block, or nothing. -/
theorem step_cases (s : Production n) (call : ProductionCall) :
    (∃ transaction, call = .addTransaction transaction ∧
      s.step P proposer proposerSecretKey call =
        { s with mempool := s.mempool.afterAdd transaction }) ∨
    (∃ height timestamp maxTransactions block,
      call = .proposeBlock height timestamp maxTransactions ∧ maxTransactions ≠ 0 ∧
      block = proposedBlock P proposer proposerSecretKey s.tip height timestamp
        (s.mempool.selectedForBlock maxTransactions) ∧
      s.step P proposer proposerSecretKey call =
        { mempool := s.mempool.afterBlock maxTransactions
          tip := headerHash P block
          blocks := s.blocks ++ [block] }) ∨
    (∃ height timestamp, call = .proposeBlock height timestamp 0 ∧
      s.step P proposer proposerSecretKey call = s) := by
  cases call with
  | addTransaction transaction =>
    exact .inl ⟨transaction, rfl, by rw [step, Mempool.run_addTransaction]⟩
  | proposeBlock height timestamp maxTransactions =>
    right
    by_cases hmax : maxTransactions = 0
    · subst hmax
      exact .inr ⟨height, timestamp, rfl, step_zero s height timestamp⟩
    · exact .inl ⟨height, timestamp, maxTransactions, _, rfl, hmax, rfl,
        step_proposeBlock s height timestamp hmax⟩

/-! ## The invariant -/

/-- A block that the producer makes on top of a hash. -/
def Makes (P : Primitives) (proposer : Validator) (proposerSecretKey : Bytes32) (block : Block) :
    Prop :=
  ∃ height timestamp, block = proposedBlock P proposer proposerSecretKey
    block.header.previousHash height timestamp block.transactions

/-- **The invariant of the runs**, after the transactions that came in: what the chain and the
mempool have of a sender is what came in, in order; and the blocks are the producer's own and
linked. -/
structure Sound (P : Primitives) (proposer : Validator) (proposerSecretKey : Bytes32)
    (genesis : Bytes) (s : Production n) (incoming : List Transaction) : Prop where
  routed : s.mempool.Routed
  order : ∀ sender, ofSender sender s.included ++ ofSender sender s.mempool.pending =
    ofSender sender incoming
  capped : ∀ block ∈ s.blocks, ∀ sender,
    (ofSender sender block.transactions).length ≤ maxTransactionsPerAddressPerBlock
  made : ∀ block ∈ s.blocks, Makes P proposer proposerSecretKey block
  linked : Linked (fun block => block.header.previousHash) (headerHash P) genesis s.blocks
  tip : tipOf (headerHash P) genesis s.blocks = s.tip

omit [NeZero n] in
theorem included_concat (s : Production n) (block : Block) (mempool : Mempool n) (tip : Bytes) :
    included { mempool, tip, blocks := s.blocks ++ [block] } =
      s.included ++ block.transactions := by
  rw [included, List.flatMap_append, List.flatMap_singleton]
  rfl

/-- One call keeps the invariant. -/
theorem Sound.step {incoming : List Transaction}
    (h : s.Sound P proposer proposerSecretKey genesis incoming) (call : ProductionCall) :
    (s.step P proposer proposerSecretKey call).Sound P proposer proposerSecretKey genesis
      (incoming ++ submitted [call]) := by
  rcases step_cases (P := P) (s := s) call with ⟨transaction, rfl, hstep⟩ |
    ⟨height, timestamp, maxTransactions, block, rfl, hmax, hblock, hstep⟩ |
    ⟨height, timestamp, rfl, hstep⟩
  · rw [hstep]
    refine { h with routed := h.routed.afterAdd transaction, order := fun sender => ?_ }
    show ofSender sender s.included ++ ofSender sender (s.mempool.afterAdd transaction).pending = _
    rw [h.routed.ofSender_afterAdd, ← List.append_assoc, h.order, ofSender_append]
    rfl
  · have hchosen := h.routed.chosen_block maxTransactions
    have htransactions : block.transactions = s.mempool.selectedForBlock maxTransactions :=
      congrArg Block.transactions hblock
    have hprevious : block.header.previousHash = s.tip :=
      congrArg (fun b : Block => b.header.previousHash) hblock
    have hincoming : incoming ++ submitted [.proposeBlock height timestamp maxTransactions] =
        incoming := List.append_nil incoming
    rw [hstep, hincoming]
    refine ⟨h.routed.afterBlock maxTransactions, fun sender => ?_, ?_, ?_, ?_, ?_⟩
    · rw [included_concat, ofSender_append, htransactions, List.append_assoc]
      show _ ++ (_ ++ ofSender sender (s.mempool.afterBlock maxTransactions).pending) = _
      rw [hchosen.order, h.order]
    · simp only [List.forall_mem_append, List.forall_mem_singleton]
      exact ⟨h.capped, fun sender => htransactions ▸ hchosen.capped sender⟩
    · simp only [List.forall_mem_append, List.forall_mem_singleton]
      exact ⟨h.made, height, timestamp, by rw [htransactions, hprevious]; exact hblock⟩
    · exact linked_append.mpr ⟨h.linked, hprevious.trans h.tip.symm, trivial⟩
    · exact tipOf_concat s.blocks block
  · rw [hstep]
    have hincoming : incoming ++ submitted [.proposeBlock height timestamp 0] = incoming :=
      List.append_nil incoming
    rwa [hincoming]

theorem submitted_cons (call : ProductionCall) (calls : List ProductionCall) :
    submitted (call :: calls) = submitted [call] ++ submitted calls := by
  rw [submitted, submitted, submitted, ← List.filterMap_append, List.singleton_append]

/-- Every run keeps it. -/
theorem Sound.run {incoming : List Transaction}
    (h : s.Sound P proposer proposerSecretKey genesis incoming) (calls : List ProductionCall) :
    (s.run P proposer proposerSecretKey calls).Sound P proposer proposerSecretKey genesis
      (incoming ++ submitted calls) := by
  induction calls generalizing s incoming with
  | nil =>
    show s.Sound P proposer proposerSecretKey genesis (incoming ++ [])
    rwa [List.append_nil]
  | cons call calls ih =>
    rw [submitted_cons, ← List.append_assoc]
    exact ih (h.step call)

theorem start_sound : (start n genesis).Sound P proposer proposerSecretKey genesis [] := by
  refine ⟨fun i transaction hmem => absurd hmem List.not_mem_nil, fun sender => ?_,
    fun block hmem => absurd hmem List.not_mem_nil, fun block hmem => absurd hmem List.not_mem_nil,
    trivial, rfl⟩
  have hpending : (start n genesis).mempool.pending = [] :=
    List.flatMap_eq_nil_iff.mpr fun i _ => rfl
  rw [hpending]
  rfl

theorem run_sound (calls : List ProductionCall) :
    ((start n genesis).run P proposer proposerSecretKey calls).Sound P proposer proposerSecretKey
      genesis (submitted calls) :=
  start_sound.run calls

/-- Nothing is lost, and nothing comes twice. -/
theorem Sound.perm {incoming : List Transaction}
    (h : s.Sound P proposer proposerSecretKey genesis incoming) :
    (s.included ++ s.mempool.pending).Perm incoming := by
  apply perm_of_ofSender
  intro sender
  rw [ofSender_append, h.order]

/-! ## Acceptance -/

/-- **The producer's blocks** are accepted if and only if they are small enough. -/
theorem Makes.validateBlock_iff (hP : P.AcceptsOwnSignatures)
    (haddress : proposer.address = (P.publicKey proposerSecretKey).toList) {block : Block}
    (h : Makes P proposer proposerSecretKey block) :
    validateBlock P block block.header.previousHash = .ok () ↔
      196 + block.header.previousHash.length + (block.transactions.map fun transaction =>
        (serialize transaction).length).sum < maxBlockSizeBytes := by
  obtain ⟨height, timestamp, hblock⟩ := h
  have hlength : proposer.address.length = 32 := by
    rw [haddress, List.Vector.toList_length]
  have hsize : (serialize block).length = 196 + block.header.previousHash.length +
      (block.transactions.map fun transaction => (serialize transaction).length).sum := by
    conv_lhs => rw [hblock]
    exact length_serialize_proposedBlock _ _ _ _ _ hlength
  have hroot : block.header.merkleRoot = (calculateMerkleRoot P block.transactions).toList :=
    congrArg (fun b : Block => b.header.merkleRoot) hblock
  have hsignature : validateBlockSignature P block.header = .ok () := by
    rw [hblock]
    exact validateBlockSignature_proposedBlock hP haddress _ _ _ _
  rw [validateBlock_ok, hsize]
  exact ⟨And.left, fun hsmall => ⟨hsmall, rfl, hroot, hsignature⟩⟩

/-- The chain is accepted if and only if its blocks are small enough. -/
theorem Sound.validateChain_iff (hP : P.AcceptsOwnSignatures)
    (haddress : proposer.address = (P.publicKey proposerSecretKey).toList)
    {incoming : List Transaction}
    (h : s.Sound P proposer proposerSecretKey genesis incoming) :
    validateChain P genesis s.blocks = .ok s.tip ↔
      ∀ block ∈ s.blocks, 196 + block.header.previousHash.length +
        (block.transactions.map fun transaction => (serialize transaction).length).sum <
          maxBlockSizeBytes := by
  rw [validateChain_eq_ok]
  constructor
  · rintro ⟨-, hvalid, -⟩ block hblock
    exact ((h.made block hblock).validateBlock_iff hP haddress).mp (hvalid block hblock)
  · intro hsmall
    refine ⟨h.linked, fun block hblock => ?_, h.tip⟩
    exact ((h.made block hblock).validateBlock_iff hP haddress).mpr (hsmall block hblock)

/-! ## Progress -/

/-- No proposal of the calls asks for more transactions than the bound. -/
def AsksAtMost (bound : ℕ) (calls : List ProductionCall) : Prop :=
  ∀ height timestamp maxTransactions,
    ProductionCall.proposeBlock height timestamp maxTransactions ∈ calls → maxTransactions ≤ bound

theorem AsksAtMost.cons {bound : ℕ} {call : ProductionCall} {calls : List ProductionCall}
    (h : AsksAtMost bound (call :: calls)) : AsksAtMost bound [call] ∧ AsksAtMost bound calls :=
  ⟨fun height timestamp maxTransactions hmem => h height timestamp maxTransactions
      (List.mem_singleton.mp hmem ▸ List.mem_cons_self),
    fun height timestamp maxTransactions hmem => h height timestamp maxTransactions
      (List.mem_cons_of_mem call hmem)⟩

/-- A block has no more transactions than its proposal asked for. -/
theorem Sound.run_bounded {incoming : List Transaction}
    (h : s.Sound P proposer proposerSecretKey genesis incoming) {bound : ℕ}
    {calls : List ProductionCall} (hasks : AsksAtMost bound calls)
    (hbefore : ∀ block ∈ s.blocks, block.transactions.length ≤ bound) :
    ∀ block ∈ (s.run P proposer proposerSecretKey calls).blocks,
      block.transactions.length ≤ bound := by
  induction calls generalizing s incoming with
  | nil => exact hbefore
  | cons call calls ih =>
    obtain ⟨hcall, hcalls⟩ := hasks.cons
    refine ih (h.step call) hcalls ?_
    rcases step_cases (P := P) (s := s) call with ⟨transaction, rfl, hstep⟩ |
      ⟨height, timestamp, maxTransactions, block, rfl, -, hblock, hstep⟩ |
      ⟨height, timestamp, rfl, hstep⟩
    · rw [hstep]
      exact hbefore
    · rw [hstep]
      simp only [List.forall_mem_append, List.forall_mem_singleton]
      refine ⟨hbefore, ?_⟩
      rw [hblock]
      exact (h.routed.chosen_block maxTransactions).bounded.trans
        (hcall height timestamp maxTransactions List.mem_cons_self)
    · rw [hstep]
      exact hbefore

/-- A proposal leaves no more than it found without its allowance. -/
theorem length_pending_afterBlock {mempool : Mempool n} (h : mempool.Routed)
    (maxTransactions : ℕ) :
    (mempool.afterBlock maxTransactions).pending.length ≤
      mempool.pending.length - min maxTransactions maxTransactionsPerAddressPerBlock := by
  have hchosen := h.chosen_block maxTransactions
  have hlength := hchosen.perm.length_eq
  rw [List.length_append] at hlength
  rcases hchosen.progress with hnil | htaken
  · rw [hnil]
    exact Nat.zero_le _
  · omega

/-- **Proposals drain the mempool** by their allowance, as long as nothing comes in. -/
theorem Sound.run_drains {incoming : List Transaction}
    (h : s.Sound P proposer proposerSecretKey genesis incoming) {calls : List ProductionCall}
    (hnothing : submitted calls = []) :
    (s.run P proposer proposerSecretKey calls).mempool.pending.length ≤
      s.mempool.pending.length - allowance calls := by
  induction calls generalizing s incoming with
  | nil => exact Nat.le_refl _
  | cons call calls ih =>
    rw [submitted_cons, List.append_eq_nil_iff] at hnothing
    have hrest := ih (h.step call) hnothing.2
    have hallowance : allowance (call :: calls) = allowance [call] + allowance calls := by
      simp only [allowance, List.map_cons, List.map_nil, List.sum_cons, List.sum_nil, Nat.add_zero]
    have hcall : (s.step P proposer proposerSecretKey call).mempool.pending.length ≤
        s.mempool.pending.length - allowance [call] := by
      rcases step_cases (P := P) (s := s) call with ⟨transaction, rfl, -⟩ |
        ⟨height, timestamp, maxTransactions, block, rfl, -, -, hstep⟩ |
        ⟨height, timestamp, rfl, hstep⟩
      · exact absurd hnothing.1 (List.cons_ne_nil _ _)
      · rw [hstep]
        exact length_pending_afterBlock h.routed maxTransactions
      · rw [hstep]
        exact Nat.le_of_eq rfl
    calc (s.run P proposer proposerSecretKey (call :: calls)).mempool.pending.length
        ≤ (s.step P proposer proposerSecretKey call).mempool.pending.length - allowance calls :=
          hrest
      _ ≤ s.mempool.pending.length - allowance (call :: calls) := by omega

end Production

/-- How many transactions of the greatest size fit into every block. -/
def fittingTransactions : ℕ := 9

/-- Nine transactions that pass their own check make a block that passes its check. -/
theorem size_of_few_transactions {transactions : List Transaction}
    (hfew : transactions.length ≤ fittingTransactions)
    (hsize : ∀ transaction ∈ transactions, validateTransactionSize transaction = .ok ()) :
    196 + 32 + (transactions.map fun transaction => (serialize transaction).length).sum <
      maxBlockSizeBytes := by
  have hsum : (transactions.map fun transaction => (serialize transaction).length).sum ≤
      transactions.length * maxTransactionSizeBytes := by
    have hle := List.sum_le_card_nsmul
      (transactions.map fun transaction => (serialize transaction).length)
      maxTransactionSizeBytes fun size hmem => by
        obtain ⟨transaction, htransaction, rfl⟩ := List.mem_map.mp hmem
        have hchecked := hsize transaction htransaction
        rw [validateTransactionSize, ensure_eq_ok] at hchecked
        exact hchecked.le
    rwa [List.length_map, Nat.nsmul_eq_mul] at hle
  have hcount : transactions.length * maxTransactionSizeBytes ≤
      fittingTransactions * maxTransactionSizeBytes := Nat.mul_le_mul_right _ hfew
  have hlimit : 196 + 32 + fittingTransactions * maxTransactionSizeBytes < maxBlockSizeBytes := by
    decide
  omega

end Production

/-! ## Runs of the producer -/

/-- **What a produced chain carries.** In every run from an empty mempool, with any number of
partitions: the chain is accepted if and only if all its blocks are small enough; the chain and the
mempool together have the transactions that came in, each as often as it came; of every sender the
chain has the first ones, in the order in which they came; and no block has more than the share of
a sender. -/
theorem produced_chain_carries (P : Primitives) (hP : P.AcceptsOwnSignatures)
    (proposer : Validator) (proposerSecretKey : Bytes32)
    (haddress : proposer.address = (P.publicKey proposerSecretKey).toList) (partitionCount : ℕ)
    (genesis : Bytes) (calls : List ProductionCall) :
    let s := (Production.start (partitionsFor partitionCount) genesis).run P proposer
      proposerSecretKey calls
    (validateChain P genesis s.blocks = .ok s.tip ↔
      ∀ block ∈ s.blocks, 196 + block.header.previousHash.length +
        (block.transactions.map fun transaction => (serialize transaction).length).sum <
          maxBlockSizeBytes) ∧
    (s.included ++ s.mempool.pending).Perm (submitted calls) ∧
    (∀ sender, ofSender sender s.included ++ ofSender sender s.mempool.pending =
      ofSender sender (submitted calls)) ∧
    ∀ block ∈ s.blocks, ∀ sender, (ofSender sender block.transactions).length ≤ 100 := by
  intro s
  have h : s.Sound P proposer proposerSecretKey genesis (submitted calls) :=
    Production.run_sound calls
  exact ⟨h.validateChain_iff hP haddress, h.perm, h.order, h.capped⟩

/-- **Production completes.** If all transactions that come in pass their own size check and no
proposal asks for more than nine, then the proposals that follow bring all of them into the chain as
soon as their allowance covers them; every block is accepted on the one before, and the transactions
of every sender are in the chain in the order in which they came. -/
theorem production_completes (P : Primitives) (hP : P.AcceptsOwnSignatures)
    (proposer : Validator) (proposerSecretKey : Bytes32)
    (haddress : proposer.address = (P.publicKey proposerSecretKey).toList) (partitionCount : ℕ)
    (genesis : Bytes) (hgenesis : genesis.length = 32) (calls proposals : List ProductionCall)
    (hsize : ∀ transaction ∈ submitted calls, validateTransactionSize transaction = .ok ())
    (hfew : Production.AsksAtMost 9 (calls ++ proposals)) (hnothing : submitted proposals = [])
    (henough : (submitted calls).length ≤ allowance proposals) :
    let s := (Production.start (partitionsFor partitionCount) genesis).run P proposer
      proposerSecretKey (calls ++ proposals)
    validateChain P genesis s.blocks = .ok s.tip ∧ s.mempool.pending = [] ∧
      s.included.Perm (submitted calls) ∧
      ∀ sender, ofSender sender s.included = ofSender sender (submitted calls) := by
  intro s
  let between := (Production.start (partitionsFor partitionCount) genesis).run P proposer
    proposerSecretKey calls
  have hbetween : between.Sound P proposer proposerSecretKey genesis (submitted calls) :=
    Production.run_sound calls
  have hsplit : s = between.run P proposer proposerSecretKey proposals := List.foldl_append
  have h : s.Sound P proposer proposerSecretKey genesis (submitted calls) := by
    have hrun := hbetween.run proposals
    rwa [hnothing, List.append_nil, ← hsplit] at hrun
  have hempty : s.mempool.pending = [] := by
    have hdrained := hbetween.run_drains hnothing
    have hpending := hbetween.perm.length_eq
    rw [← hsplit] at hdrained
    rw [List.length_append] at hpending
    exact List.length_eq_zero_iff.mp (by omega)
  have hperm : s.included.Perm (submitted calls) := by
    have hall := h.perm
    rwa [hempty, List.append_nil] at hall
  refine ⟨(h.validateChain_iff hP haddress).mpr fun block hblock => ?_, hempty, hperm,
    fun sender => ?_⟩
  · have hprevious : block.header.previousHash.length = 32 :=
      h.linked.forall_parent (q := fun hash => hash.length = 32) hgenesis
        (fun b _ => List.Vector.toList_length _) block hblock
    have hcount : block.transactions.length ≤ fittingTransactions :=
      Production.start_sound.run_bounded hfew (fun b hb => absurd hb List.not_mem_nil) block hblock
    rw [hprevious]
    refine size_of_few_transactions hcount fun transaction hmem => hsize transaction ?_
    exact hperm.subset (List.mem_flatMap.mpr ⟨block, hblock, hmem⟩)
  · have horder := h.order sender
    rw [hempty] at horder
    exact (List.append_nil _).symm.trans horder

/-- Three transfers, and a block for two of them. -/
def sampleProduction : List ProductionCall :=
  [.addTransaction (sampleTransfer 1), .addTransaction (sampleTransfer 2),
    .addTransaction (sampleTransfer 3), .proposeBlock 1 1710000000 2]

theorem sampleProduction_carried :
    proposalPrimitives.AcceptsOwnSignatures ∧
      sampleProposer.address = (proposalPrimitives.publicKey (.replicate 32 1)).toList ∧
      let s := (Production.start (partitionsFor 4) (List.replicate 32 7)).run proposalPrimitives
        sampleProposer (.replicate 32 1) sampleProduction
      (validateChain proposalPrimitives (List.replicate 32 7) s.blocks = .ok s.tip ↔
        ∀ block ∈ s.blocks, 196 + block.header.previousHash.length +
          (block.transactions.map fun transaction => (serialize transaction).length).sum <
            maxBlockSizeBytes) ∧
      (s.included ++ s.mempool.pending).Perm (submitted sampleProduction) ∧
      (∀ sender, ofSender sender s.included ++ ofSender sender s.mempool.pending =
        ofSender sender (submitted sampleProduction)) ∧
      ∀ block ∈ s.blocks, ∀ sender, (ofSender sender block.transactions).length ≤ 100 :=
  ⟨proposalPrimitives_acceptsOwnSignatures, rfl,
    produced_chain_carries proposalPrimitives proposalPrimitives_acceptsOwnSignatures
      sampleProposer (.replicate 32 1) rfl 4 (List.replicate 32 7) sampleProduction⟩

/-- Two more blocks take what is left. -/
theorem sampleProduction_completed :
    let proposals : List ProductionCall :=
      [.proposeBlock 2 1710000001 2, .proposeBlock 3 1710000002 9]
    let s := (Production.start (partitionsFor 4) (List.replicate 32 7)).run proposalPrimitives
      sampleProposer (.replicate 32 1) (sampleProduction ++ proposals)
    validateChain proposalPrimitives (List.replicate 32 7) s.blocks = .ok s.tip ∧
      s.mempool.pending = [] ∧ s.included.Perm (submitted sampleProduction) ∧
      ∀ sender, ofSender sender s.included = ofSender sender (submitted sampleProduction) := by
  intro proposals
  have hsize : ∀ transaction ∈ submitted sampleProduction,
      validateTransactionSize transaction = .ok () := by decide +kernel
  have hfew : Production.AsksAtMost 9 (sampleProduction ++ proposals) := by
    intro height timestamp maxTransactions hmem
    simp only [sampleProduction, proposals, List.cons_append, List.nil_append, List.mem_cons,
      List.not_mem_nil, reduceCtorEq, ProductionCall.proposeBlock.injEq, false_or,
      or_false] at hmem
    omega
  exact production_completes proposalPrimitives proposalPrimitives_acceptsOwnSignatures
    sampleProposer (.replicate 32 1) rfl 4 (List.replicate 32 7) rfl sampleProduction proposals
    hsize hfew rfl (by decide)

end Prims
