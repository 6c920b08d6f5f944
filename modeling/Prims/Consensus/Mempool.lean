import Mathlib.Data.Fin.Basic
import Mathlib.Data.List.FinRange
import Mathlib.Logic.Function.Basic
import Prims.Blockchain.Types
import Prims.Lib.Simulation

/-!
# The mempool

The mempool of `consensus/mod.rs` is split into partitions. Each partition is a task that owns its
transactions and answers the commands of a channel, one after the other; a client is a program that
sends commands to the partitions and waits for the responses. The transactions of a sender all go
to one partition, which the address of the sender selects.

The partition selects transactions for a block from the front of its queue. It skips those of a
sender that has its share of the block already, and it keeps what it skips in order.

## Main definitions

* `partitionForAddress`: the partition of a sender
* `selectForBlock`: the selection of a partition
* `processCommand`: what a partition does with a command
* `MempoolProgram`: client programs, with `Mempool.addTransaction` and `Mempool.takeForBlock`
* `Mempool`: the transactions of the partitions, with the programs run on them by one client

## Main results

* `selectForBlock_ofSender`: what is selected and what remains of a sender is what there was, in
  order
-/

namespace Prims

/-- `MAX_TRANSACTIONS_PER_ADDRESS_PER_BLOCK` -/
def maxTransactionsPerAddressPerBlock : ℕ := 100

/-! ## The selection of a partition -/

/-- The state of the selection loop. -/
structure Selection where
  selected : List Transaction := []
  remaining : List Transaction := []
  selectedPerSender : Bytes → ℕ := fun _ => 0

/-- One round of the loop: the block is full, the sender has its share, or the transaction is
selected. -/
def Selection.add (maxTransactions : ℕ) (s : Selection) (transaction : Transaction) : Selection :=
  if s.selected.length = maxTransactions then
    { s with remaining := s.remaining ++ [transaction] }
  else if s.selectedPerSender transaction.sender < maxTransactionsPerAddressPerBlock then
    { s with
      selected := s.selected ++ [transaction]
      selectedPerSender := Function.update s.selectedPerSender transaction.sender
        (s.selectedPerSender transaction.sender + 1) }
  else { s with remaining := s.remaining ++ [transaction] }

def selectForBlock (maxTransactions : ℕ) (transactions : List Transaction) : Selection :=
  transactions.foldl (Selection.add maxTransactions) {}

/-- The transactions of a sender, in order. -/
def ofSender (sender : Bytes) (transactions : List Transaction) : List Transaction :=
  transactions.filter fun transaction => transaction.sender = sender

theorem ofSender_append (sender : Bytes) (l l' : List Transaction) :
    ofSender sender (l ++ l') = ofSender sender l ++ ofSender sender l' :=
  List.filter_append l l'

theorem ofSender_singleton (sender : Bytes) (transaction : Transaction) :
    ofSender sender [transaction] = if transaction.sender = sender then [transaction] else [] := by
  simp only [ofSender, List.filter_cons, List.filter_nil, decide_eq_true_eq]

/-- **The invariant of the loop** after the transactions `seen`: of each sender, what is selected
comes before what remains. Once something of a sender remains, nothing more of it is selected. -/
structure Selection.Sorted (maxTransactions : ℕ) (s : Selection) (seen : List Transaction) :
    Prop where
  order : ∀ sender, ofSender sender s.selected ++ ofSender sender s.remaining =
    ofSender sender seen
  closed : ∀ sender, ofSender sender s.remaining ≠ [] → s.selected.length = maxTransactions ∨
    maxTransactionsPerAddressPerBlock ≤ s.selectedPerSender sender
  bounded : s.selected.length ≤ maxTransactions

theorem Selection.Sorted.skip {maxTransactions : ℕ} {s : Selection} {seen : List Transaction}
    (h : s.Sorted maxTransactions seen) (transaction : Transaction)
    (hfull : s.selected.length = maxTransactions ∨
      maxTransactionsPerAddressPerBlock ≤ s.selectedPerSender transaction.sender) :
    Selection.Sorted maxTransactions { s with remaining := s.remaining ++ [transaction] }
      (seen ++ [transaction]) := by
  refine ⟨fun sender => ?_, fun sender hne => ?_, h.bounded⟩
  · rw [ofSender_append, ofSender_append, ← List.append_assoc, h.order]
  · by_cases hsender : transaction.sender = sender
    · exact hsender ▸ hfull
    · rw [ofSender_append, ofSender_singleton, if_neg hsender, List.append_nil] at hne
      exact h.closed sender hne

theorem Selection.Sorted.add {maxTransactions : ℕ} {s : Selection} {seen : List Transaction}
    (h : s.Sorted maxTransactions seen) (transaction : Transaction) :
    (s.add maxTransactions transaction).Sorted maxTransactions (seen ++ [transaction]) := by
  unfold Selection.add
  split
  · next hfull => exact h.skip transaction (.inl hfull)
  · next hroom =>
    split
    · next hshare =>
      have hnone : ofSender transaction.sender s.remaining = [] := by
        by_contra hne
        rcases h.closed _ hne with hfull | hshare'
        · exact hroom hfull
        · omega
      refine ⟨fun sender => ?_, fun sender hne => ?_, ?_⟩
      · rw [ofSender_append, ofSender_append, ← h.order, ofSender_singleton]
        by_cases hsender : transaction.sender = sender
        · subst hsender
          rw [hnone, List.append_nil, List.append_nil]
        · rw [if_neg hsender, List.append_nil, List.append_nil]
      · have hsender : sender ≠ transaction.sender := by
          rintro rfl
          exact hne hnone
        rcases h.closed sender hne with hfull | hshare'
        · exact absurd hfull hroom
        · refine .inr ?_
          show _ ≤ Function.update s.selectedPerSender transaction.sender _ sender
          rwa [Function.update_of_ne hsender]
      · have := h.bounded
        simp only [List.length_append, List.length_singleton]
        omega
    · next hshare => exact h.skip transaction (.inr (not_lt.mp hshare))

/-- **The rule of the loop**: what holds at the start and after every round holds of the
selection. -/
theorem selectForBlock_induction {maxTransactions : ℕ} {p : Selection → List Transaction → Prop}
    (hstart : p {} []) (hadd : ∀ s seen transaction, p s seen →
      p (s.add maxTransactions transaction) (seen ++ [transaction]))
    (transactions : List Transaction) :
    p (selectForBlock maxTransactions transactions) transactions := by
  have hfold : ∀ (l seen : List Transaction) (s : Selection), p s seen →
      p (l.foldl (Selection.add maxTransactions) s) (seen ++ l) := by
    intro l
    induction l with
    | nil =>
      intro seen s h
      rwa [List.append_nil]
    | cons transaction l ih =>
      intro seen s h
      rw [List.foldl_cons, List.append_cons]
      exact ih _ _ (hadd s seen transaction h)
  exact hfold transactions [] {} hstart

theorem selectForBlock_sorted (maxTransactions : ℕ) (transactions : List Transaction) :
    (selectForBlock maxTransactions transactions).Sorted maxTransactions transactions :=
  selectForBlock_induction ⟨fun _ => rfl, fun _ h => absurd rfl h, Nat.zero_le _⟩
    (fun _ _ transaction h => h.add transaction) transactions

/-- **The selection keeps the order of every sender**: what it selects, followed by what it leaves,
is what there was. -/
theorem selectForBlock_ofSender (maxTransactions : ℕ) (transactions : List Transaction)
    (sender : Bytes) :
    ofSender sender (selectForBlock maxTransactions transactions).selected ++
        ofSender sender (selectForBlock maxTransactions transactions).remaining =
      ofSender sender transactions :=
  (selectForBlock_sorted maxTransactions transactions).order sender

/-- A list is determined, up to order, by what it has of every sender. -/
theorem perm_of_ofSender {l l' : List Transaction}
    (h : ∀ sender, (ofSender sender l).Perm (ofSender sender l')) : l.Perm l' := by
  rw [List.perm_iff_count]
  intro transaction
  have hcount : ∀ m : List Transaction,
      (ofSender transaction.sender m).count transaction = m.count transaction :=
    fun m => List.count_filter (by simp)
  rw [← hcount l, ← hcount l', (h transaction.sender).count_eq]

theorem selectForBlock_perm (maxTransactions : ℕ) (transactions : List Transaction) :
    ((selectForBlock maxTransactions transactions).selected ++
      (selectForBlock maxTransactions transactions).remaining).Perm transactions := by
  apply perm_of_ofSender
  intro sender
  rw [ofSender_append, selectForBlock_ofSender]

/-! ## Partitions and their commands -/

/-- The commands of a partition. All but `addTransaction` are answered. -/
inductive MempoolCommand where
  | addTransaction (transaction : Transaction)
  | takeForBlock (maxTransactions : ℕ)
  | len
  | pendingTransactions
  deriving DecidableEq, Repr

/-- The responses of a partition. A client that adds a transaction goes on once the command is
sent. -/
inductive MempoolReply where
  | sent
  | transactions (list : List Transaction)
  | len (count : ℕ)
  deriving DecidableEq, Repr

def MempoolReply.getTransactions : MempoolReply → List Transaction
  | .transactions list => list
  | _ => []

def MempoolReply.getLen : MempoolReply → ℕ
  | .len count => count
  | _ => 0

/-- What a partition does with a command: its transactions after it, and the response. -/
def processCommand (transactions : List Transaction) :
    MempoolCommand → List Transaction × MempoolReply
  | .addTransaction transaction => (transactions ++ [transaction], .sent)
  | .takeForBlock maxTransactions =>
    let selection := selectForBlock maxTransactions transactions
    (selection.remaining, .transactions selection.selected)
  | .len => (transactions, .len transactions.length)
  | .pendingTransactions => (transactions, .transactions transactions)

/-- The partition of a sender among `n`. -/
def partitionForAddress (n : ℕ) [NeZero n] (address : Bytes) : Fin n :=
  if address = [] then 0
  else
    let hash := address.foldl (fun acc byte => acc * 31 + UInt64.ofNat byte.toNat) (0 : UInt64)
    Fin.ofNat n hash.toNat

/-! ## Clients -/

/-- The programs of the clients of `n` partitions. -/
abbrev MempoolProgram (n : ℕ) := Interaction (Fin n × MempoolCommand) MempoolReply

namespace Mempool

variable (n : ℕ) [NeZero n]

def addTransaction (transaction : Transaction) : MempoolProgram n Unit := do
  let _ ← Interaction.query (partitionForAddress n transaction.sender,
    .addTransaction transaction)

def len : MempoolProgram n ℕ :=
  (List.finRange n).foldlM (fun total partition => do
    let reply ← Interaction.query (partition, .len)
    return total + reply.getLen) 0

def pendingTransactions : MempoolProgram n (List Transaction) := do
  -- for the capacity of the result
  let _ ← len n
  (List.finRange n).foldlM (fun pending partition => do
    let reply ← Interaction.query (partition, .pendingTransactions)
    return pending ++ reply.getTransactions) []

/-- The partitions are asked in order, each for as many transactions as the block has room for. -/
def takeForBlock (maxTransactions : ℕ) : MempoolProgram n (List Transaction) := do
  -- the length is asked for twice: for the capacity of the result, and to return early
  let _ ← len n
  if maxTransactions = 0 then return []
  let total ← len n
  if total = 0 then return []
  (List.finRange n).foldlM (fun selected partition =>
    if selected.length = maxTransactions then return selected
    else do
      let reply ← Interaction.query (partition, .takeForBlock (maxTransactions - selected.length))
      return selected ++ reply.getTransactions) []

end Mempool

/-! ## One client -/

/-- The transactions of the partitions, when no command is in flight. -/
abbrev Mempool (n : ℕ) := Fin n → List Transaction

namespace Mempool

variable {n : ℕ} {ε α : Type}

/-- A command is sent, processed and answered. -/
def handle (query : Fin n × MempoolCommand) : StateM (Mempool n) MempoolReply := fun mempool =>
  let (transactions, reply) := processCommand (mempool query.1) query.2
  (reply, Function.update mempool query.1 transactions)

/-- Counting the transactions leaves the mempool as it is. -/
theorem run_len (partitions : List (Fin n)) (total : ℕ) (mempool : Mempool n) :
    Interaction.run handle (partitions.foldlM (fun total partition => do
      let reply ← Interaction.query (partition, MempoolCommand.len)
      return total + reply.getLen) total : MempoolProgram n ℕ) mempool =
      (total + (partitions.map fun i => (mempool i).length).sum, mempool) := by
  induction partitions generalizing total with
  | nil => rfl
  | cons i partitions ih =>
    rw [List.foldlM_cons]
    show Interaction.run handle (partitions.foldlM _ (total + (mempool i).length))
      (Function.update mempool i (mempool i)) = _
    rw [Function.update_eq_self, ih, List.map_cons, List.sum_cons, Nat.add_assoc]

/-- Run the program of a client while no other client does anything. -/
def exec (program : MempoolProgram n α) : Procedure ε (Mempool n) α := fun mempool =>
  let (a, mempool') := program.run handle mempool
  (.ok a, mempool')

end Mempool

end Prims
