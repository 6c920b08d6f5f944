import Prims.Storage.Blocks
import Prims.Storage.Contracts
import Prims.Storage.Notes

/-!
# Failing writes

What the operations leave when a write of the backend fails. `commit_contract_storage_batch` writes
one batch, so that a failing write leaves the store as it was. The other operations write twice, and
when the second write fails the first one stays.

## Main definitions

* `StoreOp`: the operations that write more than one key
* `CountsWrites`: a procedure that does the same whether the backend limits the writes or not, until
  it runs into the limit
* `FaultLeaves`: what a procedure leaves when a write fails
* `StoreOp.firstPut`: the write that stays

## Main results

* `faultLeaves_action`: what an operation leaves when a write fails
* `all_or_nothing_iff`: the store is as before, and a second attempt does what the first one would
  have done, if and only if the first write fails or writes what is there already
-/

namespace Prims

open Bincode ByteMap

/-! ## Counting writes -/

section Counting

variable {α β : Type}

/-- With a limit on the writes, the procedure runs into it, or it does what it does without a
limit. -/
def CountsWrites (m : StorageM α) : Prop :=
  ∀ entries n, (m.run ⟨entries, some n⟩).1 = .error .backend ∨
    ∃ result entries' n', m.run ⟨entries, some n⟩ = (result, ⟨entries', some n'⟩) ∧
      m.run ⟨entries, none⟩ = (result, ⟨entries', none⟩)

theorem countsWrites_pure (a : α) : CountsWrites (pure a : StorageM α) :=
  fun entries n => .inr ⟨.ok a, entries, n, rfl, rfl⟩

theorem countsWrites_lift (x : Except StorageError α) : CountsWrites (Procedure.lift x) :=
  fun entries n => .inr ⟨x, entries, n, rfl, rfl⟩

/-- A read that does not look at the limit. -/
theorem countsWrites_read {f : Db → Except StorageError α}
    (h : ∀ entries left left', f ⟨entries, left⟩ = f ⟨entries, left'⟩) :
    CountsWrites (Procedure.read f) := by
  intro entries n
  refine .inr ⟨f ⟨entries, none⟩, entries, n, ?_, rfl⟩
  rw [Procedure.read_run, h]

theorem countsWrites_write (f : ByteMap → ByteMap) : CountsWrites (Db.write f) := by
  intro entries n
  cases n with
  | zero => exact .inl rfl
  | succ n => exact .inr ⟨.ok (), f entries, n, rfl, rfl⟩

theorem countsWrites_put (key value : Bytes) : CountsWrites (put key value) :=
  countsWrites_write _

theorem CountsWrites.bind {m : StorageM α} (hm : CountsWrites m) {f : α → StorageM β}
    (hf : ∀ a, CountsWrites (f a)) : CountsWrites (m >>= f) := by
  intro entries n
  rw [Procedure.bind_run, Procedure.bind_run]
  rcases hm entries n with hfault | ⟨result, entries', n', hlimited, hunlimited⟩
  · refine .inl ?_
    rcases hrun : m.run ⟨entries, some n⟩ with ⟨result, db⟩
    rw [hrun] at hfault
    dsimp only at hfault
    rw [hfault]
  · rw [hlimited, hunlimited]
    cases result with
    | error e => exact .inr ⟨.error e, entries', n', rfl, rfl⟩
    | ok a => exact hf a entries' n'

/-! ## Procedures that write once or twice -/

/-- When the procedure fails in the backend, it does so in its first write. -/
def FailsAtOnce (m : StorageM α) : Prop :=
  ∀ db, (m.run db).1 = .error .backend → db.writesLeft = some 0 ∧ (m.run db).2 = db

theorem failsAtOnce_write (f : ByteMap → ByteMap) : FailsAtOnce (Db.write f) := by
  rintro ⟨entries, left⟩ hfault
  cases left with
  | none => cases hfault
  | some n =>
    cases n with
    | zero => exact ⟨rfl, rfl⟩
    | succ n => cases hfault

theorem FailsAtOnce.bind_pure {m : StorageM α} (h : FailsAtOnce m) (b : β) :
    FailsAtOnce (m >>= fun _ => pure b) := by
  intro db hfault
  rw [Procedure.bind_run] at hfault ⊢
  have hm := h db
  rcases hrun : m.run db with ⟨result, db'⟩
  rw [hrun] at hfault hm
  cases result with
  | error e =>
    dsimp only at hfault
    obtain rfl := Except.error.inj hfault
    exact hm rfl
  | ok a => cases hfault

theorem failsAtOnce_read_bind (f : Db → α) {g : α → StorageM β} (h : ∀ a, FailsAtOnce (g a)) :
    FailsAtOnce (Procedure.read (fun db => .ok (f db)) >>= g) := by
  intro db hfault
  rw [Procedure.read_bind_run] at hfault ⊢
  exact h (f db) db hfault

/-- **What a failing write leaves**: the entries as they were, or the first write of two. -/
def FaultLeaves (first : Option (Bytes × Bytes)) (m : StorageM α) : Prop :=
  ∀ entries n, (m.run ⟨entries, some n⟩).1 = .error .backend →
    n = 0 ∧ (m.run ⟨entries, some n⟩).2.entries = entries ∨
      ∃ e ∈ first, n = 1 ∧ (m.run ⟨entries, some n⟩).2.entries = entries.insert e.1 e.2

theorem FailsAtOnce.faultLeaves {m : StorageM α} (h : FailsAtOnce m)
    (first : Option (Bytes × Bytes)) : FaultLeaves first m := by
  intro entries n hfault
  obtain ⟨hleft, hafter⟩ := h _ hfault
  exact .inl ⟨Option.some.inj hleft, congrArg Db.entries hafter⟩

/-- A read does not fail in the backend, so it is what comes after the read that does. -/
theorem faultLeaves_read_bind {first : Option (Bytes × Bytes)} {f : Db → Except StorageError α}
    (hf : ∀ db, f db ≠ .error .backend) {g : α → StorageM β} (hg : ∀ a, FaultLeaves first (g a)) :
    FaultLeaves first (Procedure.read f >>= g) := by
  intro entries n hfault
  rw [Procedure.read_bind_run] at hfault ⊢
  cases hread : f ⟨entries, some n⟩ with
  | ok a =>
    rw [hread] at hfault
    exact hg a entries n hfault
  | error e =>
    rw [hread] at hfault
    obtain rfl := Except.error.inj hfault
    exact absurd hread (hf _)

/-- **Two writes**: either the first write failed and nothing was written, or the second one failed
and the first one stays. -/
theorem faultLeaves_two_writes {key value : Bytes} {rest : StorageM α} (hrest : FailsAtOnce rest) :
    FaultLeaves (some (key, value)) (put key value >>= fun _ => rest) := by
  intro entries n hfault
  cases n with
  | zero => exact .inl ⟨rfl, rfl⟩
  | succ n =>
    have hput : (put key value).run ⟨entries, some (n + 1)⟩ =
        (.ok (), ⟨entries.insert key value, some n⟩) := rfl
    have hrun := Procedure.bind_run_ok hput fun _ => rest
    rw [hrun] at hfault ⊢
    obtain ⟨hleft, hafter⟩ := hrest _ hfault
    obtain rfl : n = 0 := Option.some.inj hleft
    refine .inr ⟨_, rfl, rfl, ?_⟩
    rw [hafter]

end Counting

/-! ## The operations -/

/-- The operations that write more than one key. -/
inductive StoreOp where
  | saveBlock (block : Block)
  | deployContract (sender codeWasm : Bytes)
  | setContractStorage (address key value : Bytes)
  | commitContractStorageBatch (address : Bytes) (writes : ByteMap)
  | saveViewableNote (note : ViewableNote)

namespace StoreOp

/-- What an operation returns: the hash of the block, the address of the contract, or nothing. -/
def Result : StoreOp → Type
  | .saveBlock _ => Bytes
  | .deployContract _ _ => Bytes
  | .setContractStorage _ _ _ => Unit
  | .commitContractStorageBatch _ _ => Unit
  | .saveViewableNote _ => Unit

variable (P : Primitives)

def action : (op : StoreOp) → StorageM op.Result
  | .saveBlock block => Prims.saveBlock P block
  | .deployContract sender codeWasm => Prims.deployContract P sender codeWasm
  | .setContractStorage address key value => Prims.setContractStorage P address key value
  | .commitContractStorageBatch address writes =>
    Prims.commitContractStorageBatch P address writes
  | .saveViewableNote note => Prims.saveViewableNote note

/-- The first of two writes. A batch is one write. -/
def firstPut : StoreOp → Option (Bytes × Bytes)
  | .saveBlock block => some (blockKey block.header.height, serialize block)
  | .deployContract sender codeWasm =>
    some (contractKey (deriveContractAddress P sender codeWasm).toList,
      serialize (⟨codeWasm, (P.sha256 []).toList⟩ : Contract))
  | .setContractStorage address key value => some (contractStorageKey address key, value)
  | .commitContractStorageBatch _ _ => none
  | .saveViewableNote note => some (anonymousNoteKey note.commitment.toList, serialize note)

variable {P}

theorem countsWrites_action (op : StoreOp) : CountsWrites (op.action P) := by
  cases op with
  | saveBlock block =>
    exact (countsWrites_put _ _).bind fun _ => (countsWrites_put _ _).bind fun _ =>
      countsWrites_pure _
  | deployContract sender codeWasm =>
    refine (countsWrites_lift _).bind fun _ => (countsWrites_lift _).bind fun _ => ?_
    refine (countsWrites_read fun _ _ _ => rfl).bind fun taken => ?_
    refine (countsWrites_lift _).bind fun _ => ?_
    exact (countsWrites_put _ _).bind fun _ => (countsWrites_put _ _).bind fun _ =>
      countsWrites_pure _
  | setContractStorage address key value =>
    refine (countsWrites_read fun _ _ _ => rfl).bind fun contract => ?_
    refine (countsWrites_put _ _).bind fun _ => ?_
    exact (countsWrites_read fun _ _ _ => rfl).bind fun root => countsWrites_put _ _
  | commitContractStorageBatch address writes =>
    show CountsWrites (Prims.commitContractStorageBatch P address writes)
    unfold Prims.commitContractStorageBatch
    split
    · exact countsWrites_pure ()
    · refine (countsWrites_read fun _ _ _ => rfl).bind fun contract => ?_
      exact (countsWrites_read fun _ _ _ => rfl).bind fun slotEntries => countsWrites_write _
  | saveViewableNote note =>
    exact (countsWrites_put _ _).bind fun _ => countsWrites_put _ _

/-- **What an operation leaves when a write fails**: the store as it was, or the first write of
two. -/
theorem faultLeaves_action (op : StoreOp) : FaultLeaves (op.firstPut P) (op.action P) := by
  cases op with
  | saveBlock block => exact faultLeaves_two_writes ((failsAtOnce_write _).bind_pure _)
  | deployContract sender codeWasm =>
    show FaultLeaves _ (Prims.deployContract P sender codeWasm)
    intro entries n hfault
    -- the checks do not write, and what they return is no failure of the backend
    rcases deployContract_run_cases (P := P) ⟨entries, some n⟩ sender codeWasm with
      ⟨e, hne, hrun⟩ | ⟨-, hrun⟩
    · rw [hrun] at hfault
      exact absurd (Except.error.inj hfault) hne
    · rw [hrun] at hfault ⊢
      exact faultLeaves_two_writes ((failsAtOnce_write _).bind_pure _) entries n hfault
  | setContractStorage address key value =>
    -- between the two writes the root is computed, which is a read
    refine faultLeaves_read_bind (fun db => requireContract_ne_backend db address) fun _ => ?_
    exact faultLeaves_two_writes (failsAtOnce_read_bind _ fun _ => failsAtOnce_write _)
  | commitContractStorageBatch address writes =>
    show FaultLeaves _ (Prims.commitContractStorageBatch P address writes)
    unfold Prims.commitContractStorageBatch
    split
    · intro entries n hfault
      cases hfault
    · refine faultLeaves_read_bind (fun db => requireContract_ne_backend db address) fun _ => ?_
      exact (failsAtOnce_read_bind _ fun _ => failsAtOnce_write _).faultLeaves _
  | saveViewableNote note => exact faultLeaves_two_writes (failsAtOnce_write _)

end StoreOp

theorem insert_eq_self_iff {entries : ByteMap} {key value : Bytes} :
    entries.insert key value = entries ↔ entries[key]? = some value := by
  constructor
  · intro h
    rw [← h, getElem?_insert_eq, if_pos rfl]
  · intro h
    apply Std.ExtTreeMap.ext_getElem?
    intro key'
    rw [getElem?_insert_eq]
    split
    · next heq => rw [← heq, h]
    · rfl

/-- **All or nothing**: for every operation and every choice of the first write that fails, the
operation returns an error when it gets there. The store is then as before, and a second attempt
does what the first one would have done, if and only if it was the first write that failed or the
first write changed nothing. -/
theorem all_or_nothing_iff (P : Primitives) (op : StoreOp) (entries : ByteMap) (n : ℕ) :
    let failed := (op.action P).run ⟨entries, some n⟩
    let done := (op.action P).run ⟨entries, none⟩
    (failed.1 = .error .backend ∨ failed.1 = done.1 ∧ failed.2.entries = done.2.entries) ∧
      (failed.1 = .error .backend →
        (failed.2.entries = entries ∧ (op.action P).run ⟨failed.2.entries, none⟩ = done ↔
          n = 0 ∨ ∀ e ∈ op.firstPut P, entries[e.1]? = some e.2)) := by
  intro failed done
  constructor
  · rcases op.countsWrites_action (P := P) entries n with
      hfault | ⟨result, entries', n', hlimited, hunlimited⟩
    · exact .inl hfault
    · refine .inr ⟨?_, ?_⟩
      · rw [show failed = _ from hlimited, show done = _ from hunlimited]
      · rw [show failed = _ from hlimited, show done = _ from hunlimited]
  · intro hfault
    have hretry : failed.2.entries = entries →
        (op.action P).run ⟨failed.2.entries, none⟩ = done := fun h => by rw [h]
    rw [and_iff_left_of_imp hretry]
    rcases op.faultLeaves_action entries n hfault with ⟨hn, hafter⟩ | ⟨e, he, hn, hafter⟩
    · exact iff_of_true hafter (.inl hn)
    · have hfirst : op.firstPut P = some e := he
      rw [show failed.2.entries = _ from hafter, insert_eq_self_iff, hfirst]
      constructor
      · intro h
        refine .inr ?_
        rintro e' ⟨⟩
        exact h
      · rintro (hzero | h)
        · omega
        · exact h e rfl

/-! ## Interrupted operations -/

/-- A note whose commitment repeats one byte. -/
def storedNote (byte : UInt8) : ViewableNote := ⟨⟨.replicate 32 byte⟩, .replicate 32 9, 0⟩

/-- The store after two notes were saved. -/
def twoNotesStore : ByteMap :=
  ((saveViewableNote (storedNote 1) >>= fun _ => saveViewableNote (storedNote 2)).run
    ⟨∅, none⟩).2.entries

theorem getElem?_twoNotesStore :
    twoNotesStore[anonymousNoteKey (storedNote 1).commitment.toList]? =
      some (serialize (storedNote 1)) := by
  have hstore : twoNotesStore = ([storedNote 1, storedNote 2].foldl (fun (entries : ByteMap) note =>
      (entries.insert (anonymousNoteKey note.commitment.toList) (serialize note)).insert
        (viewingHintNoteKey note.viewingHint.toList note.commitment.toList) (utf8 "1")) ∅) := rfl
  rw [hstore, List.foldl_cons, List.foldl_cons, List.foldl_nil]
  rw [getElem?_insert_eq, if_neg (by decide +kernel), getElem?_insert_eq,
    if_neg (by decide +kernel), getElem?_insert_eq, if_neg (by decide +kernel),
    getElem?_insert_eq, if_pos rfl]

/-- A note is saved again and the second write fails. The first one wrote what was there. -/
theorem storedNote_all_or_nothing :
    let op := StoreOp.saveViewableNote (storedNote 1)
    let failed := (op.action (.recorded [])).run ⟨twoNotesStore, some 1⟩
    failed.1 = .error .backend ∧ failed.2.entries = twoNotesStore ∧
      (op.action (.recorded [])).run ⟨failed.2.entries, none⟩ =
        (op.action (.recorded [])).run ⟨twoNotesStore, none⟩ := by
  intro op failed
  refine ⟨rfl, ((all_or_nothing_iff (.recorded []) op twoNotesStore 1).2 rfl).mpr (.inr ?_)⟩
  rintro entry ⟨⟩
  exact getElem?_twoNotesStore

section Deployment

variable (P : Primitives)

/-- The address is free in the empty store. -/
theorem deployContract_run_empty (left : Option ℕ) :
    let address := (deriveContractAddress P [1] [0]).toList
    (deployContract P [1] [0]).run ⟨∅, left⟩ =
      (put (contractKey address) (serialize (⟨[0], (P.sha256 []).toList⟩ : Contract)) >>=
        fun _ => put (accountKey address) (serialize (contractAccount P [0])) >>=
        fun _ => pure address).run ⟨∅, left⟩ := by
  have hfree : addressTaken ⟨∅, left⟩ (deriveContractAddress P [1] [0]).toList = .ok false := by
    have haccount : getAccount ⟨∅, left⟩ (deriveContractAddress P [1] [0]).toList = .ok none :=
      getRecord_eq_none.mpr Std.ExtTreeMap.getElem?_empty
    have hcontract : getContract ⟨∅, left⟩ (deriveContractAddress P [1] [0]).toList = .ok none :=
      getRecord_eq_none.mpr Std.ExtTreeMap.getElem?_empty
    simp only [addressTaken, haccount, hcontract]
    rfl
  intro address
  rw [deployContract, Procedure.ensure_bind_run, if_pos (by decide), Procedure.ensure_bind_run,
    if_pos (by decide), Procedure.read_bind_run, hfree]
  dsimp only
  rw [Procedure.ensure_bind_run, if_pos rfl]
  rfl

/-- After a deployment whose second write failed, the contract is there without its account, and
the address is taken for good. -/
theorem deployContract_interrupted :
    let failed := (deployContract P [1] [0]).run ⟨∅, some 1⟩
    failed.1 = .error .backend ∧ failed.2.entries ≠ ∅ ∧
      ((deployContract P [1] [0]).run ⟨failed.2.entries, none⟩).1 =
        .error .contractAddressAlreadyExists ∧
      ∃ address, ((deployContract P [1] [0]).run ⟨∅, none⟩).1 = .ok address := by
  generalize haddress : (deriveContractAddress P [1] [0]).toList = address
  have hdone := deployContract_run_empty P none
  have hfailed : (deployContract P [1] [0]).run ⟨∅, some 1⟩ = (.error .backend,
      ⟨(∅ : ByteMap).insert (contractKey address)
        (serialize (⟨[0], (P.sha256 []).toList⟩ : Contract)), some 0⟩) := by
    rw [deployContract_run_empty, haddress]
    rfl
  intro failed
  rw [show failed = _ from hfailed]
  dsimp only
  refine ⟨rfl, ?_, ?_, ?_⟩
  · intro hempty
    have hrecord := congrArg (fun entries : ByteMap => entries[contractKey address]?) hempty
    simp only [getElem?_insert_eq, if_pos, Std.ExtTreeMap.getElem?_empty] at hrecord
    cases hrecord
  · -- the half-written contract is what makes the address taken
    have haccount : getAccount ⟨(∅ : ByteMap).insert (contractKey address)
        (serialize (⟨[0], (P.sha256 []).toList⟩ : Contract)), none⟩ address = .ok none := by
      refine getRecord_eq_none.mpr ?_
      rw [getElem?_insert_eq, if_neg (contractKey_ne_accountKey _ _)]
      exact Std.ExtTreeMap.getElem?_empty
    have hcontract : getContract ⟨(∅ : ByteMap).insert (contractKey address)
        (serialize (⟨[0], (P.sha256 []).toList⟩ : Contract)), none⟩ address =
          .ok (some ⟨[0], (P.sha256 []).toList⟩) := by
      apply getRecord_serialize (fits_contract (by decide) _)
      rw [getElem?_insert_eq, if_pos rfl]
    have htaken : addressTaken ⟨(∅ : ByteMap).insert (contractKey address)
        (serialize (⟨[0], (P.sha256 []).toList⟩ : Contract)), none⟩ address = .ok true := by
      simp only [addressTaken, haccount, hcontract]
      rfl
    rw [deployContract, Procedure.ensure_bind_run, if_pos (by decide), Procedure.ensure_bind_run,
      if_pos (by decide), Procedure.read_bind_run, haddress, htaken]
    rfl
  · exact ⟨_, congrArg Prod.fst hdone⟩

end Deployment

/-- **A deployment that cannot be repeated**: its second write fails, the contract stays without an
account, and the second attempt finds the address taken. -/
theorem deployment_not_all_or_nothing :
    let op := StoreOp.deployContract [1] [0]
    let failed := (op.action (.recorded [])).run ⟨∅, some 1⟩
    failed.1 = .error .backend ∧ failed.2.entries ≠ ∅ ∧
      ((op.action (.recorded [])).run ⟨failed.2.entries, none⟩).1 =
        .error .contractAddressAlreadyExists ∧
      ∃ address, ((op.action (.recorded [])).run ⟨∅, none⟩).1 = .ok address :=
  deployContract_interrupted (.recorded [])

end Prims
