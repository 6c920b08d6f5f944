import Mathlib.Algebra.BigOperators.Group.List.Basic
import Prims.Privacy.Transfer

/-!
# Conversions between public balances and anonymous notes

The two operations of `privacy/conversion.rs`. A deposit takes an amount from the public balance
of an account and commits to a note of that value; a withdrawal consumes a note that the account
tracks and returns its value to the balance. Both read the commitment list that all accounts
share, and their caller replaces the account and the list when they succeed.

A run is any sequence of such calls on any of the accounts. It moves value between the balances
and the notes, and neither creates nor destroys any.

## Main definitions

* `convertPublicToAnon`, `convertAnonToPublic`: the operations
* `ConversionState.call`, `ConversionState.run`: the state of a run, and its calls
* `ConversionState.Consistent`: the invariant of a run

## Main results

* `call_cases`: what a successful call does
* `conversions_conserve_value`: what holds after every run
-/

namespace Prims

/-! ## The operations -/

structure PublicToAnonRequest where
  amount : UInt64
  recipientPublicKey : Bytes32
  viewingKey : Bytes32
  blinding : Bytes32
  shardId : UInt16

structure AnonToPublicRequest where
  amount : UInt64
  spendingPrivateKey : Bytes32
  blinding : Bytes32
  merkleProof : NoteMerkleProof
  shardId : Option UInt16

structure PublicToAnonConversion where
  account : Account
  viewableNote : ViewableNote
  merkleRoot : Bytes32

structure AnonToPublicConversion where
  account : Account
  consumedCommitment : Bytes32
  merkleRoot : Bytes32

inductive ConversionError where
  | zeroAmount
  | insufficientPublicBalance (balance required : UInt64)
  | viewingHintMismatch
  | invalidCreatedNote (message : String)
  | invalidConsumedNote (message : String)
  | invalidOwnershipProof
  | invalidMerkleProof
  | missingTrackedCommitment
  | missingTreeCommitment
  | balanceOverflow
  deriving DecidableEq, Repr

section Operations

variable (P : Primitives)

/-- The note that a deposit creates. -/
def PublicToAnonRequest.opening (request : PublicToAnonRequest) : NoteOpening where
  value := request.amount
  recipientPublicKey := request.recipientPublicKey
  blinding := request.blinding

/-- The note that a withdrawal consumes. -/
def AnonToPublicRequest.opening (request : AnonToPublicRequest) : NoteOpening where
  value := request.amount
  recipientPublicKey := deriveNoteRecipientPublicKey P request.spendingPrivateKey
  blinding := request.blinding

/-- **A deposit.** -/
def convertPublicToAnon (account : Account) (request : PublicToAnonRequest)
    (existingCommitments : List Bytes32) : Except ConversionError PublicToAnonConversion := do
  ensure (request.amount ≠ 0) .zeroAmount
  ensure (request.amount ≤ account.balance)
    (.insufficientPublicBalance account.balance request.amount)
  let viewableNote ← (ViewableNote.new P request.amount request.recipientPublicKey
    request.viewingKey request.blinding request.shardId).mapError fun error =>
      .invalidCreatedNote error.toString
  let expectedHint := viewableNote.viewingHint.toList
  ensure (account.anonymousState.viewingHint = none ∨
    account.anonymousState.viewingHint = some expectedHint) .viewingHintMismatch
  let commitment := viewableNote.note.commitment
  return {
    account := { account with
      balance := account.balance - request.amount
      anonymousState := {
        viewingHint := some expectedHint
        noteCommitments := account.anonymousState.noteCommitments ++ [commitment.toList] } }
    viewableNote
    merkleRoot := NoteMerkleTree.root P ⟨existingCommitments ++ [commitment]⟩ }

/-- **A withdrawal.** The first occurrence of the commitment is removed from the account and from
the list. -/
def convertAnonToPublic (account : Account) (request : AnonToPublicRequest)
    (currentCommitments : List Bytes32) : Except ConversionError AnonToPublicConversion := do
  ensure (request.amount ≠ 0) .zeroAmount
  let recipientPublicKey := deriveNoteRecipientPublicKey P request.spendingPrivateKey
  let note ← (Note.new P request.amount recipientPublicKey request.blinding).mapError fun error =>
    .invalidConsumedNote error.toString
  let commitment := note.commitment
  ensure (request.merkleProof.leaf = commitment) .invalidOwnershipProof
  let currentRoot := NoteMerkleTree.root P ⟨currentCommitments⟩
  ensure (NoteMerkleTree.verifyProof P currentRoot request.merkleProof) .invalidMerkleProof
  ensure (commitment.toList ∈ account.anonymousState.noteCommitments) .missingTrackedCommitment
  ensure (commitment ∈ currentCommitments) .missingTreeCommitment
  match account.balance.checkedAdd request.amount with
  | none => throw .balanceOverflow
  | some balance =>
    let noteCommitments := account.anonymousState.noteCommitments.erase commitment.toList
    return {
      account := { account with
        balance
        anonymousState := {
          viewingHint :=
            if noteCommitments = [] then none else account.anonymousState.viewingHint
          noteCommitments } }
      consumedCommitment := commitment
      merkleRoot := NoteMerkleTree.root P ⟨currentCommitments.erase commitment⟩ }

variable {P}

/-- When a deposit succeeds, and what it returns: the account and the note with the hint of the
viewing key. -/
theorem convertPublicToAnon_eq_ok {account : Account} {request : PublicToAnonRequest}
    {existing : List Bytes32} {result : PublicToAnonConversion}
    (h : convertPublicToAnon P account request existing = .ok result) :
    request.amount ≤ account.balance ∧
      Note.new P request.amount request.recipientPublicKey request.blinding =
        .ok result.viewableNote.note ∧
      ∃ hint, (account.anonymousState.viewingHint = none ∨
          account.anonymousState.viewingHint = some hint) ∧
        result.account = { account with
          balance := account.balance - request.amount
          anonymousState := {
            viewingHint := some hint
            noteCommitments := account.anonymousState.noteCommitments ++
              [result.viewableNote.note.commitment.toList] } } ∧
        result.merkleRoot =
          NoteMerkleTree.root P ⟨existing ++ [result.viewableNote.note.commitment]⟩ := by
  unfold convertPublicToAnon at h
  rw [ensure_bind_eq_ok, ensure_bind_eq_ok, Except.bind_eq_ok] at h
  obtain ⟨-, hbalance, viewableNote, hnote, h⟩ := h
  rw [ensure_bind_eq_ok] at h
  obtain ⟨hhint, h⟩ := h
  cases h
  exact ⟨hbalance, (ViewableNote.new_eq_ok (Except.mapError_eq_ok.mp hnote)).1, _, hhint, rfl, rfl⟩

/-- What a deposit returns. -/
theorem convertPublicToAnon_ok {account : Account} {request : PublicToAnonRequest}
    {existing : List Bytes32} {result : PublicToAnonConversion}
    (h : convertPublicToAnon P account request existing = .ok result) :
    request.amount ≤ account.balance ∧
      result.viewableNote.note.commitment = request.opening.commitment P ∧
      result.account.balance = account.balance - request.amount ∧
      result.account.anonymousState.viewingHint.isSome ∧
      result.account.anonymousState.noteCommitments =
        account.anonymousState.noteCommitments ++ [(request.opening.commitment P).toList] ∧
      result.merkleRoot = NoteMerkleTree.root P ⟨existing ++ [request.opening.commitment P]⟩ := by
  obtain ⟨hbalance, hnote, hint, -, haccount, hroot⟩ := convertPublicToAnon_eq_ok h
  have hcommitment : result.viewableNote.note.commitment = request.opening.commitment P :=
    (Note.new_eq_ok.mp hnote).2
  rw [hcommitment] at haccount hroot
  rw [haccount]
  exact ⟨hbalance, hcommitment, rfl, rfl, rfl, hroot⟩

/-- When a withdrawal succeeds, and what it returns. -/
theorem convertAnonToPublic_eq_ok {account : Account} {request : AnonToPublicRequest}
    {current : List Bytes32} {result : AnonToPublicConversion} :
    convertAnonToPublic P account request current = .ok result ↔
      ∃ note balance, Note.new P request.amount
          (deriveNoteRecipientPublicKey P request.spendingPrivateKey) request.blinding = .ok note ∧
        request.merkleProof.leaf = note.commitment ∧
        NoteMerkleTree.verifyProof P (NoteMerkleTree.root P ⟨current⟩) request.merkleProof ∧
        note.commitment.toList ∈ account.anonymousState.noteCommitments ∧
        note.commitment ∈ current ∧
        account.balance.checkedAdd request.amount = some balance ∧
        result = {
          account := { account with
            balance
            anonymousState := {
              viewingHint :=
                if account.anonymousState.noteCommitments.erase note.commitment.toList = [] then
                  none
                else account.anonymousState.viewingHint
              noteCommitments :=
                account.anonymousState.noteCommitments.erase note.commitment.toList } }
          consumedCommitment := note.commitment
          merkleRoot := NoteMerkleTree.root P ⟨current.erase note.commitment⟩ } := by
  unfold convertAnonToPublic
  rw [ensure_bind_eq_ok, Except.bind_eq_ok]
  simp only [ensure_bind_eq_ok, Except.mapError_eq_ok]
  constructor
  · rintro ⟨-, note, hnote, hleaf, hverify, htracked, htree, h⟩
    split at h
    · cases h
    · next balance hadd =>
      cases h
      exact ⟨note, balance, hnote, hleaf, hverify, htracked, htree, hadd, rfl⟩
  · rintro ⟨note, balance, hnote, hleaf, hverify, htracked, htree, hadd, rfl⟩
    refine ⟨(Note.new_eq_ok.mp hnote).1.1, note, hnote, hleaf, hverify, htracked, htree, ?_⟩
    rw [hadd]
    rfl

/-- What a withdrawal returns. -/
theorem convertAnonToPublic_ok {account : Account} {request : AnonToPublicRequest}
    {current : List Bytes32} {result : AnonToPublicConversion}
    (h : convertAnonToPublic P account request current = .ok result) :
    ((request.opening P).commitment P).toList ∈ account.anonymousState.noteCommitments ∧
      (request.opening P).commitment P ∈ current ∧
      result.consumedCommitment = (request.opening P).commitment P ∧
      account.balance.checkedAdd request.amount = some result.account.balance ∧
      result.account.anonymousState.noteCommitments =
        account.anonymousState.noteCommitments.erase ((request.opening P).commitment P).toList ∧
      (result.account.anonymousState.viewingHint =
        if result.account.anonymousState.noteCommitments = [] then none
        else account.anonymousState.viewingHint) ∧
      result.merkleRoot =
        NoteMerkleTree.root P ⟨current.erase ((request.opening P).commitment P)⟩ := by
  obtain ⟨note, balance, hnote, -, -, htracked, htree, hadd, rfl⟩ :=
    convertAnonToPublic_eq_ok.mp h
  have hcommitment : note.commitment = (request.opening P).commitment P :=
    (Note.new_eq_ok.mp hnote).2
  rw [hcommitment] at htracked htree ⊢
  exact ⟨htracked, htree, rfl, hadd, rfl, rfl, rfl⟩

end Operations

/-! ## Runs -/

/-- The state of a run: the accounts and the commitment list that they share. The openings are the
history of the run: the notes that the successful calls have hashed. No call reads them. -/
structure ConversionState where
  accounts : List Account
  commitments : List Bytes32
  openings : List NoteOpening

/-- The start of a run. -/
def ConversionState.initial (accounts : List Account) : ConversionState := ⟨accounts, [], []⟩

/-- A call, on the account with the given number. -/
inductive ConversionCall where
  | publicToAnon (account : ℕ) (request : PublicToAnonRequest)
  | anonToPublic (account : ℕ) (request : AnonToPublicRequest)

section Runs

variable (P : Primitives)

/-- The Merkle root that a successful call returns, and the state after it. -/
def ConversionState.call (s : ConversionState) : ConversionCall → Option (Bytes32 × ConversionState)
  | .publicToAnon i request => do
    let account ← s.accounts[i]?
    let result ← (convertPublicToAnon P account request s.commitments).toOption
    return (result.merkleRoot, {
      accounts := s.accounts.set i result.account
      commitments := s.commitments ++ [result.viewableNote.note.commitment]
      openings := s.openings ++ [request.opening] })
  | .anonToPublic i request => do
    let account ← s.accounts[i]?
    let result ← (convertAnonToPublic P account request s.commitments).toOption
    return (result.merkleRoot, {
      accounts := s.accounts.set i result.account
      commitments := s.commitments.erase result.consumedCommitment
      openings := s.openings ++ [request.opening P] })

/-- A failed call changes nothing. -/
def ConversionState.step (s : ConversionState) (call : ConversionCall) : ConversionState :=
  ((s.call P call).map Prod.snd).getD s

def ConversionState.run (s : ConversionState) (calls : List ConversionCall) : ConversionState :=
  calls.foldl (ConversionState.step P) s

/-- The value of the balances and of the notes together. -/
def ConversionState.totalValue (s : ConversionState) : ℕ :=
  (s.accounts.map fun account => account.balance.toNat).sum +
    (s.commitments.map (noteValue P s.openings)).sum

variable {P}

/-- The account of a call within the list, before and after. -/
theorem exists_split_of_getElem? {α : Type} {l : List α} {i : ℕ} {a : α} (h : l[i]? = some a) :
    ∃ l₁ l₂, l = l₁ ++ a :: l₂ ∧ ∀ b, l.set i b = l₁ ++ b :: l₂ := by
  obtain ⟨hi, rfl⟩ := List.getElem?_eq_some_iff.mp h
  refine ⟨l.take i, l.drop (i + 1), ?_, fun b => ?_⟩
  · rw [List.getElem_cons_drop, List.take_append_drop]
  · exact List.set_eq_take_append_cons_drop.trans (if_pos hi)

/-- A deposit of the note `o` by one account: `before` and `after` are the account's two states. -/
structure Deposit (P : Primitives) (o : NoteOpening) (before after : Account) : Prop where
  balance : after.balance.toNat + o.value.toNat = before.balance.toNat
  hint : after.anonymousState.viewingHint.isSome
  tracked : after.anonymousState.noteCommitments =
    before.anonymousState.noteCommitments ++ [(o.commitment P).toList]

/-- A withdrawal of the note `o` by one account. -/
structure Withdrawal (P : Primitives) (o : NoteOpening) (before after : Account) : Prop where
  balance : after.balance.toNat = before.balance.toNat + o.value.toNat
  mem : (o.commitment P).toList ∈ before.anonymousState.noteCommitments
  hint : after.anonymousState.viewingHint =
    if after.anonymousState.noteCommitments = [] then none
    else before.anonymousState.viewingHint
  tracked : after.anonymousState.noteCommitments =
    before.anonymousState.noteCommitments.erase (o.commitment P).toList

/-- **What a successful call does**: one account deposits a note, which enters the list, or
withdraws one, which leaves it; and the root returned is that of the new list. -/
theorem call_cases {s s' : ConversionState} {call : ConversionCall} {root : Bytes32}
    (h : s.call P call = some (root, s')) :
    root = NoteMerkleTree.root P ⟨s'.commitments⟩ ∧
      ∃ o before after l₁ l₂, s.accounts = l₁ ++ before :: l₂ ∧ s'.accounts = l₁ ++ after :: l₂ ∧
        s'.openings = s.openings ++ [o] ∧
        ((Deposit P o before after ∧ s'.commitments = s.commitments ++ [o.commitment P]) ∨
          (Withdrawal P o before after ∧ o.commitment P ∈ s.commitments ∧
            s'.commitments = s.commitments.erase (o.commitment P))) := by
  cases call with
  | publicToAnon i request =>
    simp only [ConversionState.call, Option.bind_eq_bind, Option.bind_eq_some_iff,
      Except.toOption_eq_some, Option.pure_def, Option.some.injEq, Prod.mk.injEq] at h
    obtain ⟨account, haccount, result, hresult, rfl, rfl⟩ := h
    obtain ⟨hle, hcommitment, hbalance, hhint, htracked, hroot⟩ := convertPublicToAnon_ok hresult
    obtain ⟨l₁, l₂, hl, hset⟩ := exists_split_of_getElem? haccount
    refine ⟨by rw [hroot, hcommitment], request.opening, account, result.account, l₁, l₂, hl,
      hset _, rfl, .inl ⟨⟨?_, hhint, htracked⟩, by rw [hcommitment]⟩⟩
    rw [hbalance, UInt64.toNat_sub_of_le _ _ hle]
    exact Nat.sub_add_cancel (UInt64.le_iff_toNat_le.mp hle)
  | anonToPublic i request =>
    simp only [ConversionState.call, Option.bind_eq_bind, Option.bind_eq_some_iff,
      Except.toOption_eq_some, Option.pure_def, Option.some.injEq, Prod.mk.injEq] at h
    obtain ⟨account, haccount, result, hresult, rfl, rfl⟩ := h
    obtain ⟨hmem, htree, hconsumed, hadd, htracked, hhint, hroot⟩ := convertAnonToPublic_ok hresult
    obtain ⟨l₁, l₂, hl, hset⟩ := exists_split_of_getElem? haccount
    refine ⟨by rw [hroot, hconsumed], request.opening P, account, result.account, l₁, l₂, hl,
      hset _, rfl, .inr ⟨⟨?_, hmem, hhint, htracked⟩, htree, by rw [hconsumed]⟩⟩
    exact UInt64.checkedAdd_eq_some.mp hadd

/-! ## The invariant -/

/-- **The invariant of a run**: the list holds what the accounts track, an account has a viewing
hint exactly when it tracks a note, and every commitment of the list has an opening in the
history. -/
structure ConversionState.Consistent (P : Primitives) (s : ConversionState) : Prop where
  tracked : (s.commitments.map List.Vector.toList).Perm
    (s.accounts.flatMap fun account => account.anonymousState.noteCommitments)
  hint : ∀ account ∈ s.accounts, account.anonymousState.viewingHint.isSome ↔
    account.anonymousState.noteCommitments ≠ []
  known : s.commitments ⊆ s.openings.map (NoteOpening.commitment P)

theorem ConversionState.Consistent.initial {accounts : List Account}
    (h : ∀ account ∈ accounts, account.anonymousState = {}) :
    (ConversionState.initial accounts).Consistent P where
  tracked := by
    have hnil : (accounts.flatMap fun account => account.anonymousState.noteCommitments) = [] := by
      rw [List.flatMap_eq_nil_iff]
      intro account haccount
      rw [h account haccount]
    rw [ConversionState.initial, hnil]
    exact List.Perm.refl _
  hint := by
    intro account haccount
    rw [h account haccount]
    simp
  known := List.nil_subset _

/-- A deposit adds one commitment on both sides. -/
theorem tracked_deposit {o : NoteOpening} {before after : Account} (hd : Deposit P o before after)
    {commitments : List Bytes32} {l₁ l₂ : List Bytes}
    (h : (commitments.map List.Vector.toList).Perm
      (l₁ ++ (before.anonymousState.noteCommitments ++ l₂))) :
    ((commitments ++ [o.commitment P]).map List.Vector.toList).Perm
      (l₁ ++ (after.anonymousState.noteCommitments ++ l₂)) := by
  rw [hd.tracked, List.map_append, List.map_singleton, List.append_assoc]
  refine (h.append_right _).trans ?_
  rw [List.append_assoc, List.append_assoc]
  exact ((List.perm_append_comm).append_left _).append_left _

/-- A withdrawal removes one commitment on both sides. -/
theorem tracked_withdrawal {o : NoteOpening} {before after : Account}
    (hw : Withdrawal P o before after) {commitments : List Bytes32} {l₁ l₂ : List Bytes}
    (hmem : o.commitment P ∈ commitments)
    (h : (commitments.map List.Vector.toList).Perm
      (l₁ ++ (before.anonymousState.noteCommitments ++ l₂))) :
    ((commitments.erase (o.commitment P)).map List.Vector.toList).Perm
      (l₁ ++ (after.anonymousState.noteCommitments ++ l₂)) := by
  have hleft : (commitments.map List.Vector.toList).Perm
      ((o.commitment P).toList :: (commitments.erase (o.commitment P)).map List.Vector.toList) :=
    (List.perm_cons_erase hmem).map _
  have hright : (l₁ ++ (before.anonymousState.noteCommitments ++ l₂)).Perm
      ((o.commitment P).toList :: (l₁ ++ (after.anonymousState.noteCommitments ++ l₂))) := by
    rw [hw.tracked]
    refine (((List.perm_cons_erase hw.mem).append_right l₂).append_left l₁).trans ?_
    exact List.perm_middle
  exact ((hleft.symm.trans h).trans hright).cons_inv

/-- A successful call keeps the invariant. -/
theorem ConversionState.Consistent.call {s s' : ConversionState} (hs : s.Consistent P)
    {call : ConversionCall} {root : Bytes32} (h : s.call P call = some (root, s')) :
    s'.Consistent P := by
  obtain ⟨-, o, before, after, l₁, l₂, hl, hl', hopenings, hcases⟩ := call_cases h
  have htracked := hs.tracked
  have hhint := hs.hint
  rw [hl, List.flatMap_append, List.flatMap_cons] at htracked
  rw [hl] at hhint
  have hhints : (after.anonymousState.viewingHint.isSome ↔
        after.anonymousState.noteCommitments ≠ []) →
      ∀ account ∈ s'.accounts, (account.anonymousState.viewingHint.isSome ↔
        account.anonymousState.noteCommitments ≠ []) := by
    intro hafter account haccount
    rw [hl', List.mem_append, List.mem_cons] at haccount
    rcases haccount with haccount | rfl | haccount
    · exact hhint account (List.mem_append_left _ haccount)
    · exact hafter
    · exact hhint account (List.mem_append_right _ (List.mem_cons_of_mem _ haccount))
  rcases hcases with ⟨hd, hcommitments⟩ | ⟨hw, hmem, hcommitments⟩
  · refine ⟨?_, hhints ?_, ?_⟩
    · rw [hcommitments, hl', List.flatMap_append, List.flatMap_cons]
      exact tracked_deposit hd htracked
    · rw [hd.tracked]
      simp [hd.hint]
    · rw [hcommitments, hopenings, List.map_append]
      intro c hc
      rcases List.mem_append.mp hc with hc | hc
      · exact List.mem_append_left _ (hs.known hc)
      · exact List.mem_append_right _ hc
  · refine ⟨?_, hhints ?_, ?_⟩
    · rw [hcommitments, hl', List.flatMap_append, List.flatMap_cons]
      exact tracked_withdrawal hw hmem htracked
    · -- the account tracked the consumed note, so it had a hint
      have hbefore := hhint before (List.mem_append_right _ List.mem_cons_self)
      have hsome := hbefore.mpr (List.ne_nil_of_mem hw.mem)
      rw [hw.hint]
      split
      · next hnil => simp [hnil]
      · next hne => simp [hne, hsome]
    · rw [hcommitments, hopenings, List.map_append]
      intro c hc
      exact List.mem_append_left _ (hs.known (List.mem_of_mem_erase hc))

/-- The value of a commitment stays when the history grows. -/
theorem noteValue_append {openings : List NoteOpening} {c : Bytes32}
    (h : c ∈ openings.map (NoteOpening.commitment P)) (more : List NoteOpening) :
    noteValue P (openings ++ more) c = noteValue P openings c := by
  unfold noteValue
  rw [List.find?_append]
  -- the first opening decides, and there was one before the history grew
  cases hf : openings.find? fun o => o.commitment P = c with
  | none =>
    obtain ⟨o, ho, rfl⟩ := List.mem_map.mp h
    have := List.find?_eq_none.mp hf o ho
    simp at this
  | some o => rfl

/-- **A successful call conserves value**, without a collision among the notes hashed so far. -/
theorem totalValue_call {s s' : ConversionState} (hs : s.Consistent P) {call : ConversionCall}
    {root : Bytes32} (h : s.call P call = some (root, s'))
    (hcol : ¬ Collision P.sha256 (s'.openings.map NoteOpening.message)) :
    s'.totalValue P = s.totalValue P := by
  obtain ⟨-, o, before, after, l₁, l₂, hl, hl', hopenings, hcases⟩ := call_cases h
  have hold : s.commitments.map (noteValue P s'.openings) =
      s.commitments.map (noteValue P s.openings) := by
    refine List.map_congr_left fun c hc => ?_
    rw [hopenings, noteValue_append (hs.known hc)]
  have hnew : noteValue P s'.openings (o.commitment P) = o.value.toNat := by
    have ho : o ∈ s'.openings := by simp [hopenings]
    exact noteValue_commitment hcol (List.Subset.refl _) (List.mem_map_of_mem ho)
      (List.mem_map_of_mem ho)
  unfold ConversionState.totalValue
  rw [← hold, hl, hl']
  rcases hcases with ⟨hd, hcommitments⟩ | ⟨hw, hmem, hcommitments⟩
  · have hbalance := hd.balance
    rw [hcommitments]
    simp only [List.map_append, List.map_cons, List.map_nil, List.sum_append, List.sum_cons,
      List.sum_nil, hnew]
    omega
  · have hbalance := hw.balance
    have herase := List.sum_map_erase (noteValue P s'.openings) hmem
    rw [hnew] at herase
    rw [hcommitments]
    simp only [List.map_append, List.map_cons, List.sum_append, List.sum_cons]
    omega

/-- The history only grows. -/
theorem openings_subset_run (s : ConversionState) (calls : List ConversionCall) :
    s.openings ⊆ (s.run P calls).openings := by
  induction calls generalizing s with
  | nil => exact List.Subset.refl _
  | cons call calls ih =>
    refine List.Subset.trans ?_ (ih (s.step P call))
    unfold ConversionState.step
    cases hc : s.call P call with
    | none => exact List.Subset.refl _
    | some result =>
      obtain ⟨-, o, -, -, -, -, -, -, hopenings, -⟩ := call_cases hc
      rw [Option.map_some, Option.getD_some, hopenings]
      exact List.subset_append_left _ _

/-- A run keeps the invariant and conserves value. -/
theorem ConversionState.Consistent.run {s : ConversionState} (hs : s.Consistent P)
    (calls : List ConversionCall)
    (hcol : ¬ Collision P.sha256 ((s.run P calls).openings.map NoteOpening.message)) :
    (s.run P calls).Consistent P ∧ (s.run P calls).totalValue P = s.totalValue P := by
  induction calls generalizing s with
  | nil => exact ⟨hs, rfl⟩
  | cons call calls ih =>
    have hrun : s.run P (call :: calls) = (s.step P call).run P calls := rfl
    rw [hrun] at hcol ⊢
    cases hc : s.call P call with
    | none =>
      have hstep : s.step P call = s := by simp [ConversionState.step, hc]
      rw [hstep] at hcol ⊢
      exact ih hs hcol
    | some result =>
      obtain ⟨root, s'⟩ := result
      have hstep : s.step P call = s' := by simp [ConversionState.step, hc]
      rw [hstep] at hcol ⊢
      obtain ⟨hs'', htotal⟩ := ih (hs.call hc) hcol
      -- the run has hashed what this call has, so a collision here would be one there
      refine ⟨hs'', htotal.trans (totalValue_call hs hc fun hcol' => hcol (hcol'.mono ?_))⟩
      exact List.map_subset _ (openings_subset_run s' calls)

/-- **Conversions conserve value**: after every run from accounts without notes, the balances and
the notes are worth what the balances were at the start, the list holds the notes that the accounts
track, an account has a viewing hint exactly when it tracks a note, and the next call that succeeds
returns the root of the new list. -/
theorem conversions_conserve_value (P : Primitives) (accounts : List Account)
    (hempty : ∀ account ∈ accounts, account.anonymousState = {}) (calls : List ConversionCall)
    (hcol : ¬ Collision P.sha256
      (((ConversionState.initial accounts).run P calls).openings.map NoteOpening.message)) :
    let s := (ConversionState.initial accounts).run P calls
    (s.accounts.map fun account => account.balance.toNat).sum +
        (s.commitments.map (noteValue P s.openings)).sum =
      (accounts.map fun account => account.balance.toNat).sum ∧
    (∀ c ∈ s.commitments, ∃ o ∈ s.openings, o.commitment P = c) ∧
    (s.commitments.map List.Vector.toList).Perm
      (s.accounts.flatMap fun account => account.anonymousState.noteCommitments) ∧
    (∀ account ∈ s.accounts, account.anonymousState.viewingHint.isSome ↔
      account.anonymousState.noteCommitments ≠ []) ∧
    ∀ call root s', s.call P call = some (root, s') →
      root = NoteMerkleTree.root P ⟨s'.commitments⟩ := by
  intro s
  obtain ⟨hs, htotal⟩ := (ConversionState.Consistent.initial hempty).run calls hcol
  refine ⟨htotal.trans ?_, fun c hc => ?_, hs.tracked, hs.hint, fun call root s' hcall => ?_⟩
  · simp [ConversionState.totalValue, ConversionState.initial]
  · exact List.mem_map.mp (hs.known hc)
  · exact (call_cases hcall).1

end Runs

/-! ## A deposit and its withdrawal -/

/-- An account with a balance of 10. -/
def sampleAccount : Account := ⟨10, 0, none, {}⟩

/-- The account deposits a note of value 7 and withdraws it again. -/
def sampleCalls : List ConversionCall :=
  [.publicToAnon 0 ⟨7, sampleNote.recipientPublicKey, .replicate 32 9, sampleNote.blinding, 0⟩,
    .anonToPublic 0 ⟨7, sampleInput.spendingPrivateKey, sampleNote.blinding,
      sampleInput.merkleProof, none⟩]

theorem sampleCalls_openings :
    ((ConversionState.initial [sampleAccount]).run noSignatures sampleCalls).openings =
      [sampleNote, sampleNote] := by
  decide +kernel

/-- Both calls succeed, and the balance is what it was. -/
theorem sampleCalls_conserve_value :
    let s := (ConversionState.initial [sampleAccount]).run noSignatures sampleCalls
    (s.accounts.map fun account => account.balance.toNat).sum +
        (s.commitments.map (noteValue noSignatures s.openings)).sum = 10 := by
  refine (conversions_conserve_value noSignatures [sampleAccount] (by simp [sampleAccount])
    sampleCalls ?_).1
  rw [sampleCalls_openings]
  rintro ⟨m, hm, m', hm', hne, -⟩
  simp only [List.map_cons, List.map_nil, List.mem_cons, List.not_mem_nil, or_false, or_self]
    at hm hm'
  exact hne (hm.trans hm'.symm)

end Prims
