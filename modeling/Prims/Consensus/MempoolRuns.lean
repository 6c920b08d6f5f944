import Mathlib.Data.Multiset.AddSub
import Prims.Consensus.Mempool

/-!
# Concurrent runs of the mempool

Any number of clients hold clones of one mempool. Each of them makes one call after the other, and
a call is a program that sends commands to the channels of the partitions. A partition takes the
commands from its channel in the order they were sent, and its responses are delivered. Sends and
the work of the partitions interleave in any way: a run is a list of events, in which a client
makes a call, a client sends its next command, or a partition works on the next command of its
channel.

## Main definitions

* `MempoolSystem`, `MempoolSystem.step`: the clients, the channels and the partitions
* `MempoolSystem.Ordered`: the invariant of the runs

## Main results

* `mempool_keeps_transactions`: in every run, nothing is lost or duplicated, and the transactions of
  every sender stay in order
-/

namespace Prims

/-- `with_partition_count` makes at least one partition. -/
def partitionsFor (partitionCount : ℕ) : ℕ := max partitionCount 1

instance (partitionCount : ℕ) : NeZero (partitionsFor partitionCount) :=
  ⟨by unfold partitionsFor; omega⟩

/-! ## The system -/

/-- The capacity of the channels. -/
def channelCapacity : ℕ := 1024

/-- The calls of a client. The two ways to add a transaction send the same command. -/
inductive MempoolCall where
  | addTransaction (transaction : Transaction)
  | takeForBlock (maxTransactions : ℕ)
  | len
  | pendingTransactions
  deriving DecidableEq, Repr

/-- A client between calls, about to send or to return, or waiting for a response. -/
inductive MempoolClient (n : ℕ) where
  | idle
  | active (program : MempoolProgram n Unit)
  | waiting (next : MempoolReply → MempoolProgram n Unit)

/-- A partition: the commands in its channel with the clients that sent them, and the transactions
it holds. -/
structure MempoolPartition (κ : Type) where
  channel : List (κ × MempoolCommand) := []
  transactions : List Transaction := []

/-- The clients and the partitions, with two histories: the transactions whose command was
processed, and those that were returned for blocks, both in order. -/
structure MempoolSystem (κ : Type) (n : ℕ) where
  clients : κ → MempoolClient n := fun _ => .idle
  partitions : Fin n → MempoolPartition κ := fun _ => {}
  processed : List Transaction := []
  returned : List Transaction := []

inductive MempoolEvent (κ : Type) (n : ℕ) where
  | call (client : κ) (call : MempoolCall)
  | send (client : κ)
  | process (partition : Fin n)

section System

variable {κ : Type} [DecidableEq κ] {n : ℕ} [NeZero n]

/-- The program of a call; what it returns to the client does not matter here. -/
def MempoolCall.program : MempoolCall → MempoolProgram n Unit
  | .addTransaction transaction => Mempool.addTransaction n transaction
  | .takeForBlock maxTransactions => do let _ ← Mempool.takeForBlock n maxTransactions
  | .len => do let _ ← Mempool.len n
  | .pendingTransactions => do let _ ← Mempool.pendingTransactions n

namespace MempoolSystem

def setClient (s : MempoolSystem κ n) (client : κ) (state : MempoolClient n) : MempoolSystem κ n :=
  { s with clients := Function.update s.clients client state }

def setPartition (s : MempoolSystem κ n) (i : Fin n) (partition : MempoolPartition κ) :
    MempoolSystem κ n :=
  { s with partitions := Function.update s.partitions i partition }

/-- A client sends its next command when there is room in the channel. It goes on at once after
`addTransaction`, and waits for the response otherwise. -/
def send (s : MempoolSystem κ n) (client : κ) : MempoolSystem κ n :=
  match s.clients client with
  | .active (.ask (i, command) next) =>
    let partition := s.partitions i
    if partition.channel.length < channelCapacity then
      (s.setPartition i { partition with channel := partition.channel ++ [(client, command)] })
        |>.setClient client (match command with
          | .addTransaction _ => .active (next .sent)
          | _ => .waiting next)
    else s
  | .active (.done _) => s.setClient client .idle
  | _ => s

/-- The response reaches the client that waits for it. -/
def deliver (s : MempoolSystem κ n) (client : κ) (reply : MempoolReply) : MempoolSystem κ n :=
  match s.clients client with
  | .waiting next => s.setClient client (.active (next reply))
  | _ => s

/-- The histories after a command. -/
def record (s : MempoolSystem κ n) (command : MempoolCommand) (reply : MempoolReply) :
    MempoolSystem κ n :=
  match command with
  | .addTransaction transaction => { s with processed := s.processed ++ [transaction] }
  | .takeForBlock _ => { s with returned := s.returned ++ reply.getTransactions }
  | _ => s

/-- A partition works on the next command of its channel. -/
def process (s : MempoolSystem κ n) (i : Fin n) : MempoolSystem κ n :=
  match (s.partitions i).channel with
  | [] => s
  | (client, command) :: channel =>
    -- the task of the partition takes the command that was sent first
    let (transactions, reply) := processCommand (s.partitions i).transactions command
    ((s.setPartition i { channel, transactions }).record command reply).deliver client reply

def step (s : MempoolSystem κ n) : MempoolEvent κ n → MempoolSystem κ n
  | .call client call =>
    match s.clients client with
    -- a client makes one call at a time
    | .idle => s.setClient client (.active call.program)
    | _ => s
  | .send client => s.send client
  | .process i => s.process i

/-- A run from the empty mempool. -/
def run (κ : Type) [DecidableEq κ] (n : ℕ) [NeZero n] (events : List (MempoolEvent κ n)) :
    MempoolSystem κ n :=
  events.foldl step {}

/-- The transactions that the partitions hold. -/
def held (s : MempoolSystem κ n) : List Transaction :=
  (List.finRange n).flatMap fun i => (s.partitions i).transactions

/-! ## The invariant -/

end MempoolSystem

/-- A transaction is sent to the partition of its sender. -/
def Routed (query : Fin n × MempoolCommand) : Prop :=
  ∀ transaction, query.2 = .addTransaction transaction →
    partitionForAddress n transaction.sender = query.1

/-- What a client may still send is routed. -/
def MempoolClient.Routed : MempoolClient n → Prop
  | .idle => True
  | .active program => program.Asks Prims.Routed
  | .waiting next => ∀ reply, (next reply).Asks Prims.Routed

theorem routed_of_ne {i : Fin n} {command : MempoolCommand}
    (h : ∀ transaction, command ≠ .addTransaction transaction) : Routed (i, command) :=
  fun transaction heq => absurd heq (h transaction)

theorem asks_query {query : Fin n × MempoolCommand} (h : Routed query) :
    (Interaction.query query : MempoolProgram n MempoolReply).Asks Routed :=
  ⟨h, fun _ => trivial⟩

theorem asks_len : (Mempool.len n).Asks Routed := by
  apply Interaction.Asks.foldlM
  intro total i
  refine (asks_query ?_).bind fun _ => trivial
  exact routed_of_ne fun _ h => nomatch h

/-- The programs of the clients send every transaction to the partition of its sender. -/
theorem asks_program (call : MempoolCall) : (call.program (n := n)).Asks Routed := by
  cases call with
  | addTransaction transaction =>
    refine (asks_query ?_).bind fun _ => trivial
    intro transaction' h
    cases h
    rfl
  | takeForBlock maxTransactions =>
    refine Interaction.Asks.bind ?_ fun _ => trivial
    refine asks_len.bind fun _ => ?_
    split
    · exact trivial
    · refine asks_len.bind fun total => ?_
      split
      · exact trivial
      · apply Interaction.Asks.foldlM
        intro selected i
        split
        · exact trivial
        · refine (asks_query ?_).bind fun _ => trivial
          exact routed_of_ne fun _ h => nomatch h
  | len => exact asks_len.bind fun _ => trivial
  | pendingTransactions =>
    refine Interaction.Asks.bind ?_ fun _ => trivial
    refine asks_len.bind fun _ => ?_
    apply Interaction.Asks.foldlM
    intro pending i
    refine (asks_query ?_).bind fun _ => trivial
    exact routed_of_ne fun _ h => nomatch h

namespace MempoolSystem

/-- **The invariant of the runs**: transactions are on their way to, or in, the partition of their
sender, and what was returned and what is held of a sender is what was processed, in order. -/
structure Ordered (s : MempoolSystem κ n) : Prop where
  clients : ∀ client, (s.clients client).Routed
  channels : ∀ i, ∀ entry ∈ (s.partitions i).channel, Routed (i, entry.2)
  partitions : ∀ i, ∀ transaction ∈ (s.partitions i).transactions,
    partitionForAddress n transaction.sender = i
  order : ∀ sender, ofSender sender s.returned ++
      ofSender sender (s.partitions (partitionForAddress n sender)).transactions =
    ofSender sender s.processed

variable {s : MempoolSystem κ n}

theorem Ordered.setClient (h : s.Ordered) (client : κ) {state : MempoolClient n}
    (hstate : state.Routed) : (s.setClient client state).Ordered := by
  refine ⟨fun client' => ?_, h.channels, h.partitions, h.order⟩
  show (Function.update s.clients client state client').Routed
  by_cases hclient : client' = client
  · rwa [hclient, Function.update_self]
  · rw [Function.update_of_ne hclient]
    exact h.clients client'

omit [DecidableEq κ] in
/-- A partition and the histories change: the order is to be shown for the senders of the
partition, and the histories of the others are as before. -/
theorem Ordered.setPartition (h : s.Ordered) (i : Fin n) {partition : MempoolPartition κ}
    {processed returned : List Transaction}
    (hchannel : ∀ entry ∈ partition.channel, Routed (i, entry.2))
    (hpartition : ∀ transaction ∈ partition.transactions,
      partitionForAddress n transaction.sender = i)
    (hsame : ∀ sender, partitionForAddress n sender = i →
      ofSender sender returned ++ ofSender sender partition.transactions =
        ofSender sender processed)
    (hother : ∀ sender, partitionForAddress n sender ≠ i →
      ofSender sender returned = ofSender sender s.returned ∧
        ofSender sender processed = ofSender sender s.processed) :
    Ordered { s.setPartition i partition with processed, returned } := by
  have hupdate : ∀ j, j ≠ i → (s.setPartition i partition).partitions j = s.partitions j :=
    fun j hj => Function.update_of_ne hj _ _
  have hself : (s.setPartition i partition).partitions i = partition := Function.update_self ..
  refine ⟨h.clients, fun j => ?_, fun j => ?_, fun sender => ?_⟩
  · show ∀ entry ∈ ((s.setPartition i partition).partitions j).channel, _
    by_cases hj : j = i
    · rw [hj, hself]
      exact hchannel
    · rw [hupdate j hj]
      exact h.channels j
  · show ∀ transaction ∈ ((s.setPartition i partition).partitions j).transactions, _
    by_cases hj : j = i
    · rw [hj, hself]
      exact hpartition
    · rw [hupdate j hj]
      exact h.partitions j
  · show _ ++ ofSender sender ((s.setPartition i partition).partitions _).transactions = _
    by_cases hsender : partitionForAddress n sender = i
    · rw [hsender, hself]
      exact hsame sender hsender
    · rw [hupdate _ hsender, (hother sender hsender).1, (hother sender hsender).2]
      exact h.order sender

omit [DecidableEq κ] in
/-- Commands enter and leave the channel of a partition, and nothing else changes. -/
theorem Ordered.setChannel (h : s.Ordered) (i : Fin n) {channel : List (κ × MempoolCommand)}
    (hchannel : ∀ entry ∈ channel, Routed (i, entry.2)) :
    (s.setPartition i { s.partitions i with channel }).Ordered := by
  refine h.setPartition i hchannel (h.partitions i) ?_ fun _ _ => ⟨rfl, rfl⟩
  rintro sender rfl
  exact h.order sender

omit [DecidableEq κ] in
/-- A transaction of another partition's sender is not among those of a partition. -/
theorem Ordered.ofSender_eq_nil (h : s.Ordered) {i : Fin n} {l : List Transaction}
    (hl : l ⊆ (s.partitions i).transactions) {sender : Bytes}
    (hsender : partitionForAddress n sender ≠ i) : ofSender sender l = [] := by
  rw [ofSender, List.filter_eq_nil_iff]
  intro transaction hmem heq
  rw [decide_eq_true_eq] at heq
  exact hsender (heq ▸ h.partitions i transaction (hl hmem))

theorem Ordered.send (h : s.Ordered) (client : κ) : (s.send client).Ordered := by
  have hclient := h.clients client
  unfold MempoolSystem.send
  split
  · next i command next heq =>
    rw [heq] at hclient
    obtain ⟨hrouted, hnext⟩ : Routed (i, command) ∧ ∀ reply, (next reply).Asks Routed := hclient
    dsimp only
    split
    · apply Ordered.setClient
      · refine h.setChannel i fun entry hentry => ?_
        rcases List.mem_append.mp hentry with hentry | hentry
        · exact h.channels i entry hentry
        · rw [List.mem_singleton] at hentry
          exact hentry ▸ hrouted
      · split
        · exact hnext _
        · exact hnext
    · exact h
  · exact h.setClient client trivial
  · exact h

theorem Ordered.deliver (h : s.Ordered) (client : κ) (reply : MempoolReply) :
    (s.deliver client reply).Ordered := by
  have hclient := h.clients client
  unfold MempoolSystem.deliver
  split
  · next next heq =>
    rw [heq] at hclient
    exact h.setClient client (hclient reply)
  · exact h

omit [DecidableEq κ] in
/-- The new transaction is last in its partition and last in the history. -/
theorem Ordered.add (h : s.Ordered) (i : Fin n) {channel : List (κ × MempoolCommand)}
    (hchannel : ∀ entry ∈ channel, Routed (i, entry.2)) {transaction : Transaction}
    (hrouted : partitionForAddress n transaction.sender = i) :
    Ordered { s.setPartition i
        { channel, transactions := (s.partitions i).transactions ++ [transaction] } with
      processed := s.processed ++ [transaction] } := by
  refine h.setPartition i hchannel (fun transaction' hmem => ?_) (fun sender hsender => ?_)
    fun sender hsender => ⟨rfl, ?_⟩
  · rcases List.mem_append.mp hmem with hmem | hmem
    · exact h.partitions i transaction' hmem
    · rw [List.mem_singleton] at hmem
      exact hmem ▸ hrouted
  · subst hsender
    show ofSender sender s.returned ++ ofSender sender (_ ++ [transaction]) = _
    rw [ofSender_append, ofSender_append, ← List.append_assoc, h.order]
  · have hne : transaction.sender ≠ sender := by
      rintro rfl
      exact hsender hrouted
    rw [ofSender_append, ofSender_singleton, if_neg hne, List.append_nil]

omit [DecidableEq κ] in
/-- What is selected moves to the history of what was returned, and the rest stays. -/
theorem Ordered.take (h : s.Ordered) (i : Fin n) {channel : List (κ × MempoolCommand)}
    (hchannel : ∀ entry ∈ channel, Routed (i, entry.2)) (maxTransactions : ℕ) :
    let taken := selectForBlock maxTransactions (s.partitions i).transactions
    Ordered { s.setPartition i { channel, transactions := taken.remaining } with
      returned := s.returned ++ taken.selected } := by
  have hperm := selectForBlock_perm maxTransactions (s.partitions i).transactions
  refine h.setPartition i hchannel (fun transaction hmem => ?_) (fun sender hsender => ?_)
    fun sender hsender => ⟨?_, rfl⟩
  · exact h.partitions i transaction (hperm.subset (List.mem_append_right _ hmem))
  · subst hsender
    show _ = ofSender sender s.processed
    rw [ofSender_append, List.append_assoc, selectForBlock_ofSender, h.order]
  · rw [ofSender_append, h.ofSender_eq_nil (fun _ hmem =>
      hperm.subset (List.mem_append_left _ hmem)) hsender, List.append_nil]

theorem Ordered.process (h : s.Ordered) (i : Fin n) : (s.process i).Ordered := by
  unfold MempoolSystem.process
  split
  · exact h
  · next client command channel heq =>
    have hrest : ∀ entry ∈ channel, Routed (i, entry.2) := fun entry hentry =>
      h.channels i entry (heq ▸ List.mem_cons_of_mem _ hentry)
    apply Ordered.deliver
    cases command with
    | addTransaction transaction =>
      have hrouted : partitionForAddress n transaction.sender = i :=
        h.channels i _ (heq ▸ List.mem_cons_self) transaction rfl
      exact h.add i hrest hrouted
    | takeForBlock maxTransactions => exact h.take i hrest maxTransactions
    | len => exact h.setChannel i hrest
    | pendingTransactions => exact h.setChannel i hrest

/-- One event keeps the invariant. -/
theorem Ordered.step (h : s.Ordered) (event : MempoolEvent κ n) : (s.step event).Ordered := by
  cases event with
  | call client call =>
    rw [MempoolSystem.step]
    split
    · have hprogram : (MempoolClient.active call.program : MempoolClient n).Routed :=
        asks_program call
      exact h.setClient client hprogram
    · exact h
  | send client => exact h.send client
  | process i => exact h.process i

/-- Every run keeps it. -/
theorem run_ordered (events : List (MempoolEvent κ n)) : (run κ n events).Ordered := by
  unfold run
  refine List.foldlRecOn events _ ?_ fun s h event _ => h.step event
  refine ⟨fun _ => trivial, fun _ entry h => ?_, fun _ transaction h => ?_, fun _ => rfl⟩
  · exact absurd h List.not_mem_nil
  · exact absurd h List.not_mem_nil

omit [DecidableEq κ] in
/-- What is held of a sender is in the partition of the sender. -/
theorem Ordered.ofSender_held (h : s.Ordered) (sender : Bytes) :
    ofSender sender s.held =
      ofSender sender (s.partitions (partitionForAddress n sender)).transactions := by
  have hother : ∀ i, i ≠ partitionForAddress n sender →
      ofSender sender (s.partitions i).transactions = [] :=
    fun i hi => h.ofSender_eq_nil (List.Subset.refl _) hi.symm
  -- among partitions without repetition, only the one of the sender contributes
  have hflat : ∀ l : List (Fin n), l.Nodup →
      ofSender sender (l.flatMap fun i => (s.partitions i).transactions) =
        if partitionForAddress n sender ∈ l then
          ofSender sender (s.partitions (partitionForAddress n sender)).transactions
        else [] := by
    intro l hl
    induction l with
    | nil => rfl
    | cons i l ih =>
      rw [List.nodup_cons] at hl
      rw [List.flatMap_cons, ofSender_append, ih hl.2]
      by_cases hi : i = partitionForAddress n sender
      · subst hi
        rw [if_neg hl.1, if_pos List.mem_cons_self, List.append_nil]
      · rw [hother i hi, List.nil_append]
        simp only [List.mem_cons, Ne.symm hi, false_or]
  rw [held, hflat _ (List.nodup_finRange n), if_pos (List.mem_finRange _)]

end MempoolSystem

end System

/-- **The mempool keeps its transactions.** For every number of partitions and every run of any
clients: the transactions that were processed are those that were returned and those that are held,
each as often; and what was returned and what is held of a sender is what was processed, in
order. -/
theorem mempool_keeps_transactions (κ : Type) [DecidableEq κ] (partitionCount : ℕ)
    (events : List (MempoolEvent κ (partitionsFor partitionCount))) :
    let s := MempoolSystem.run κ (partitionsFor partitionCount) events
    (s.processed : Multiset Transaction) = s.returned + s.held ∧
      ∀ sender, ofSender sender s.returned ++ ofSender sender s.held =
        ofSender sender s.processed := by
  intro s
  have h : s.Ordered := MempoolSystem.run_ordered events
  have horder : ∀ sender, ofSender sender s.returned ++ ofSender sender s.held =
      ofSender sender s.processed := by
    intro sender
    rw [h.ofSender_held, h.order]
  refine ⟨?_, horder⟩
  rw [Multiset.coe_add, Multiset.coe_eq_coe]
  apply perm_of_ofSender
  intro sender
  rw [ofSender_append, horder]

end Prims
