import Prims.Vm.Execution

/-!
# Contract execution is a transaction

The reference execution does not stage anything. It writes every slot to a private copy of the
store at once, recomputes the root, and reads from the copy; when the contract returns, the copy is
published. It cannot be told apart from the execution that stages its writes: after any host calls,
the copy is the store with the staged writes committed to it.

## Main definitions

* `Reference`, `referenceContractCall`: the reference machine and its execution
* `StagedCopy`: the relation between the two machines
* `CommitsWrites`: what a successful execution leaves

## Main results

* `hostSimulates_reference`: the two machines simulate one another
* `execution_is_transaction`: both executions make the same trace and have the same result, a
  failed one changes nothing, and a successful one writes the slots and the root
-/

namespace Prims

open ByteMap

section Reference

variable (engine : WasmEngine) (P : Primitives)

/-! ## The reference execution -/

/-- The reference machine works on a private copy of the store. -/
structure Reference where
  vm : WasmVM
  copy : Db
  written : Bool

namespace Reference

/-- The copy accepts all writes. -/
def start (storage : Db) (vm : WasmVM) : Reference := ⟨vm, ⟨storage.entries, none⟩, false⟩

/-- An operation that only changes the machine. -/
def onVm {α : Type} (m : Db → Procedure VmError WasmVM α) : Procedure VmError Reference α :=
  fun r =>
  let (result, vm) := (m r.copy).run r.vm
  (result, { r with vm })

/-- An operation that writes to the copy. -/
def onCopy {α : Type} (m : WasmVM → StorageM α) : Procedure VmError Reference α := fun r =>
  let (result, copy) := (m r.vm).run r.copy
  (result.mapError .storage, { r with copy, written := true })

/-- The operations of the reference machine: a slot is written to the copy at once, and the copy is
what is read. -/
def host : HostInterface Reference where
  getCaller r := r.vm.context.caller
  getBlockHeight r := r.vm.context.blockHeight
  getBalance address := Procedure.read fun r => WasmVM.getBalance r.copy address
  transfer recipient amount data := onVm fun copy => WasmVM.transfer copy recipient amount data
  setStorage key value := do
    let _ ← Procedure.read fun r => r.vm.requireContractAccount r.copy .storageAccess
    onCopy fun vm => setContractStorage P vm.context.contractAddress key value
  getStorage key := Procedure.read fun r => do
    let _ ← r.vm.requireContractAccount r.copy .storageAccess
    (getContractStorage r.copy r.vm.context.contractAddress key).mapError .storage
  emitEvent name data := onVm fun _ => WasmVM.emitEvent name data

end Reference

/-- The reference execution: the copy is published, in one write, if something was written. -/
def referenceContractCall (context : WasmExecutionContext) (method : String) (params : Bytes)
    (fuelLimit : UInt64) : Procedure VmError Db WasmExecutionOutcome := do
  let prepared ← Procedure.read fun storage => prepareContractCall storage context method fuelLimit
  let final ← Procedure.read fun storage =>
    let run := (runContract engine (Reference.host P) params prepared.1.codeWasm method
      fuelLimit).run (Reference.start storage prepared.2)
    run.1.map fun remainingFuel => (remainingFuel, run.2)
  ExceptT.adapt VmError.storage
    (if final.2.written then Db.write fun _ => final.2.copy.entries else pure ())
  return ⟨final.1, final.2.vm.pendingTransfers, final.2.vm.emittedEvents⟩

/-- **What a successful execution leaves**: the slots are the old ones with the last write to each
key over them; the record of the contract has their root if there was a write, and nothing changed
otherwise; no other key changed. -/
structure CommitsWrites (before : Db) (address : Bytes) (writes : List (Bytes × Bytes))
    (after : Db) : Prop where
  slots : ∀ k, after.entries[contractStorageKey address k]? =
    (lastWrite writes k).or before.entries[contractStorageKey address k]?
  record : writes ≠ [] → ∃ contract, requireContract before address = .ok contract ∧
    requireContract after address = .ok { contract with
      storageRoot := (computeContractStorageRoot P after address).toList }
  unwritten : writes = [] → after = before
  frame : ∀ key, key ≠ contractKey address → (∀ k, key ≠ contractStorageKey address k) →
    after.entries[key]? = before.entries[key]?

variable {engine P}

/-! ## The copy is the store with the staged writes -/

/-- The entries with a list of slots committed to them, if there are any. -/
def copied (P : Primitives) (entries : ByteMap) (address : Bytes) (contract : Contract)
    (writes : List (Bytes × Bytes)) : ByteMap :=
  if writes = [] then entries else committed P entries address contract writes

theorem getElem?_copied_slot (entries : ByteMap) (address : Bytes) (contract : Contract)
    (writes : List (Bytes × Bytes)) (k : Bytes) :
    (copied P entries address contract writes)[contractStorageKey address k]? =
      (lastWrite writes k).or entries[contractStorageKey address k]? := by
  unfold copied
  split
  · next h => rw [h]; rfl
  · exact getElem?_committed_slot entries address contract writes k

theorem getElem?_copied_other (entries : ByteMap) (address : Bytes) (contract : Contract)
    (writes : List (Bytes × Bytes)) {key : Bytes} (hcontract : key ≠ contractKey address)
    (h : ∀ k, key ≠ contractStorageKey address k) :
    (copied P entries address contract writes)[key]? = entries[key]? := by
  unfold copied
  split
  · rfl
  · exact getElem?_committed_other entries address contract writes hcontract h

/-- The contract is found in the copy, with some root. -/
theorem requireContract_copied {storage : Db} {address : Bytes} {contract : Contract}
    (h : requireContract storage address = .ok contract) (writes : List (Bytes × Bytes)) :
    ∃ root, requireContract ⟨copied P storage.entries address contract writes, none⟩ address =
      .ok { contract with storageRoot := root } := by
  unfold copied
  split
  · exact ⟨contract.storageRoot, h⟩
  · exact ⟨_, requireContract_committed h rfl⟩

/-- One more write to the copy. -/
theorem committed_copied (entries : ByteMap) (address : Bytes) (contract : Contract)
    (root : Bytes) (writes : List (Bytes × Bytes)) (key value : Bytes) :
    committed P (copied P entries address contract writes) address
        { contract with storageRoot := root } [(key, value)] =
      copied P entries address contract (writes ++ [(key, value)]) := by
  have hne : writes ++ [(key, value)] ≠ [] := by simp
  rw [copied, copied, if_neg hne]
  split
  · next h =>
    -- the root of the record is overwritten, so it does not matter
    rw [h, List.nil_append]
    rfl
  · exact committed_committed entries address contract root writes [(key, value)]

/-! ## The simulation -/

/-- **The relation of the two machines**: they agree but for the slots. Those that were written are
staged on one side, and committed to the copy on the other. -/
structure StagedCopy (P : Primitives) (storage : Db) (context : WasmExecutionContext)
    (contract : Contract) (s : WasmVM × List HostEvent) (t : Reference × List HostEvent) :
    Prop where
  trace : t.2 = s.2
  sameContext : s.1.context = context
  vm : t.1.vm = { s.1 with stagedStorageWrites := ∅ }
  staged : s.1.stagedStorageWrites = writeAll ∅ (storageWrites s.2)
  copy : t.1.copy =
    ⟨copied P storage.entries context.contractAddress contract (storageWrites s.2), none⟩
  written : t.1.written = decide (storageWrites s.2 ≠ [])

theorem storageWrites_append (trace trace' : List HostEvent) :
    storageWrites (trace ++ trace') = storageWrites trace ++ storageWrites trace' :=
  List.filterMap_append

namespace StagedCopy

variable {storage : Db} {context : WasmExecutionContext} {contract : Contract}
  {s : WasmVM × List HostEvent} {t : Reference × List HostEvent}

/-- Accounts are read alike: no slot and no contract record is an account. -/
theorem getAccount_eq (h : StagedCopy P storage context contract s t) (address : Bytes) :
    getAccount t.1.copy address = getAccount storage address := by
  apply getRecord_congr
  rw [h.copy]
  exact getElem?_copied_other _ _ _ _ (contractKey_ne_accountKey _ _).symm
    fun k => (contractStorageKey_ne_accountKey _ _ _).symm

theorem requireContractAccount_eq (h : StagedCopy P storage context contract s t)
    (operation : VmOperation) :
    t.1.vm.requireContractAccount t.1.copy operation =
      s.1.requireContractAccount storage operation := by
  unfold WasmVM.requireContractAccount
  simp only [h.getAccount_eq]
  rw [h.vm]
  rfl

theorem transferTransaction_eq (h : StagedCopy P storage context contract s t)
    (recipient : Bytes) (amount : UInt64) (data : Option Bytes) :
    t.1.vm.transferTransaction t.1.copy recipient amount data =
      s.1.transferTransaction storage recipient amount data := by
  unfold WasmVM.transferTransaction
  rw [h.requireContractAccount_eq, h.vm]
  rfl

/-- An operation that writes no slot keeps the relation. -/
theorem quiet (h : StagedCopy P storage context contract s t) {vm : WasmVM} {event : HostEvent}
    (hcontext : vm.context = s.1.context)
    (hstaged : vm.stagedStorageWrites = s.1.stagedStorageWrites)
    (hevent : storageWrites [event] = []) :
    StagedCopy P storage context contract (vm, s.2 ++ [event])
      ({ t.1 with vm := { vm with stagedStorageWrites := ∅ } }, t.2 ++ [event]) := by
  have hwrites : storageWrites (s.2 ++ [event]) = storageWrites s.2 := by
    rw [storageWrites_append, hevent, List.append_nil]
  refine ⟨by rw [h.trace], hcontext.trans h.sameContext, rfl, ?_, ?_, ?_⟩
  · rw [hstaged, hwrites, h.staged]
  · rw [hwrites, h.copy]
  · rw [hwrites, h.written]

/-- A read, or an operation that fails, leaves both machines as they are. -/
theorem unchanged (h : StagedCopy P storage context contract s t) {event : HostEvent}
    (hevent : storageWrites [event] = []) :
    StagedCopy P storage context contract (s.1, s.2 ++ [event]) (t.1, t.2 ++ [event]) := by
  have hquiet : StagedCopy P storage context contract (s.1, s.2 ++ [event])
      ({ t.1 with vm := { s.1 with stagedStorageWrites := ∅ } }, t.2 ++ [event]) :=
    h.quiet rfl rfl hevent
  rwa [← h.vm] at hquiet

/-- A slot reads the same: it is staged, or it is not and the copy has it from the store. -/
theorem getStorage_eq (h : StagedCopy P storage context contract s t)
    (hcontract : requireContract storage context.contractAddress = .ok contract) (key : Bytes) :
    (do
      let _ ← t.1.vm.requireContractAccount t.1.copy .storageAccess
      (getContractStorage t.1.copy t.1.vm.context.contractAddress key).mapError .storage) =
      s.1.getStorage storage key := by
  obtain ⟨root, hroot⟩ := requireContract_copied (P := P) hcontract (storageWrites s.2)
  have haddress : t.1.vm.context.contractAddress = context.contractAddress := by
    rw [h.vm, ← h.sameContext]
  have hstaged : s.1.stagedStorageWrites[key]? = lastWrite (storageWrites s.2) key := by
    rw [h.staged, getElem?_writeAll, Std.ExtTreeMap.getElem?_empty, Option.or_none]
  have hcopy : getContractStorage t.1.copy context.contractAddress key =
      .ok ((lastWrite (storageWrites s.2) key).or
        storage.entries[contractStorageKey context.contractAddress key]?) := by
    rw [getContractStorage, h.copy, hroot]
    exact congrArg Except.ok (getElem?_copied_slot _ _ _ _ _)
  have hstorage : getContractStorage storage context.contractAddress key =
      .ok storage.entries[contractStorageKey context.contractAddress key]? := by
    rw [getContractStorage, hcontract]
    rfl
  rw [WasmVM.getStorage, WasmVM.requireContractAddress_bind, h.requireContractAccount_eq,
    h.sameContext, haddress, hcopy, hstaged]
  cases lastWrite (storageWrites s.2) key with
  | some value => rfl
  | none =>
    dsimp only
    rw [hstorage]
    rfl

/-- A write is staged on one side and committed to the copy on the other. -/
theorem write (h : StagedCopy P storage context contract s t)
    (hcontract : requireContract storage context.contractAddress = .ok contract)
    (key value : Bytes) :
    StagedCopy P storage context contract
      ({ s.1 with stagedStorageWrites := s.1.stagedStorageWrites.insert key value },
        s.2 ++ [.setStorage key value (.ok ())])
      ({ t.1 with
          copy := ((setContractStorage P context.contractAddress key value).run t.1.copy).2
          written := true },
        t.2 ++ [.setStorage key value (.ok ())]) := by
  obtain ⟨root, hroot⟩ := requireContract_copied (P := P) hcontract (storageWrites s.2)
  have hwrites : storageWrites (s.2 ++ [.setStorage key value (.ok ())]) =
      storageWrites s.2 ++ [(key, value)] := by
    rw [storageWrites_append]
    rfl
  refine ⟨by rw [h.trace], h.sameContext, by rw [h.vm], ?_, ?_, ?_⟩
  · rw [hwrites, h.staged, writeAll, writeAll, List.foldl_append]
    rfl
  · rw [hwrites, h.copy, setContractStorage_run hroot rfl, committed_copied]
  · rw [hwrites]
    simp

/-- The reference machine makes the same check as the other one, and its write succeeds. -/
theorem setStorage_run (h : StagedCopy P storage context contract s t)
    (hcontract : requireContract storage context.contractAddress = .ok contract)
    (key value : Bytes) :
    ((Reference.host P).setStorage key value).run t.1 =
      match s.1.requireContractAccount storage .storageAccess with
      | .ok _ => (.ok (), { t.1 with
          copy := ((setContractStorage P context.contractAddress key value).run t.1.copy).2
          written := true })
      | .error e => (.error e, t.1) := by
  obtain ⟨root, hroot⟩ := requireContract_copied (P := P) hcontract (storageWrites s.2)
  have haddress : t.1.vm.context.contractAddress = context.contractAddress := by
    rw [h.vm, ← h.sameContext]
  have hok : ((setContractStorage P context.contractAddress key value).run t.1.copy).1 =
      .ok () := by
    rw [h.copy, setContractStorage_run hroot rfl]
  show (Procedure.read _ >>= _ : Procedure VmError Reference Unit).run t.1 = _
  rw [Procedure.read_bind_run, h.requireContractAccount_eq]
  cases s.1.requireContractAccount storage .storageAccess with
  | error e => rfl
  | ok account =>
    show (Except.mapError _ ((setContractStorage P t.1.vm.context.contractAddress key
      value).run t.1.copy).1, _) = _
    rw [haddress, hok]
    rfl

/-- A transfer is queued by both machines, or by neither. -/
theorem transfer (h : StagedCopy P storage context contract s t) (recipient : Bytes)
    (amount : UInt64) (data : Option Bytes) :
    let run := (WasmVM.transfer storage recipient amount data).run s.1
    let run' := (WasmVM.transfer t.1.copy recipient amount data).run t.1.vm
    run'.1 = run.1 ∧ StagedCopy P storage context contract
      (run.2, s.2 ++ [.transfer recipient amount data run.1])
      ({ t.1 with vm := run'.2 }, t.2 ++ [.transfer recipient amount data run.1]) := by
  rw [WasmVM.transfer_run, WasmVM.transfer_run, h.transferTransaction_eq]
  cases s.1.transferTransaction storage recipient amount data with
  | error e => exact ⟨rfl, h.unchanged rfl⟩
  | ok transaction =>
    refine ⟨rfl, ?_⟩
    rw [h.vm]
    exact h.quiet rfl rfl rfl

/-- An event is emitted by both machines, or by neither. -/
theorem emitEvent (h : StagedCopy P storage context contract s t) (name data : Bytes) :
    let run := (WasmVM.emitEvent name data).run s.1
    let run' := (WasmVM.emitEvent name data).run t.1.vm
    run'.1 = run.1 ∧ StagedCopy P storage context contract
      (run.2, s.2 ++ [.emitEvent name data run.1])
      ({ t.1 with vm := run'.2 }, t.2 ++ [.emitEvent name data run.1]) := by
  have hcheck : t.1.vm.requireContractAddress .emitEvent =
      s.1.requireContractAddress .emitEvent := by
    rw [h.vm]
    rfl
  rw [WasmVM.emitEvent_run, WasmVM.emitEvent_run, hcheck, h.vm]
  generalize (do
    let _ ← s.1.requireContractAddress .emitEvent
    ensure (name ≠ []) .emptyEventName : Except VmError Unit) = check
  cases check with
  | error e => exact ⟨rfl, h.quiet rfl rfl rfl⟩
  | ok _ => exact ⟨rfl, h.quiet rfl rfl rfl⟩

end StagedCopy

/-- **The two machines simulate one another**, with the same trace. -/
theorem hostSimulates_reference {storage : Db} {context : WasmExecutionContext}
    {contract : Contract}
    (hcontract : requireContract storage context.contractAddress = .ok contract) :
    HostSimulates (StagedCopy P storage context contract) (WasmVM.host storage).traced
      (Reference.host P).traced where
  getCaller s t h := by
    show s.1.context.caller = t.1.vm.context.caller
    rw [h.vm]
  getBlockHeight s t h := by
    show s.1.context.blockHeight = t.1.vm.context.blockHeight
    rw [h.vm]
  getBalance address := by
    apply simulates_traceAs
    intro s t h
    refine ⟨?_, h.unchanged rfl⟩
    show WasmVM.getBalance t.1.copy address = WasmVM.getBalance storage address
    rw [WasmVM.getBalance, WasmVM.getBalance, h.getAccount_eq]
  transfer recipient amount data := by
    apply simulates_traceAs
    intro s t h
    exact h.transfer recipient amount data
  setStorage key value := by
    apply simulates_traceAs
    intro s t h
    have hstaged : ((WasmVM.host storage).setStorage key value).run s.1 = _ :=
      WasmVM.setStorage_run storage key value s.1
    rw [hstaged, h.setStorage_run hcontract]
    cases s.1.requireContractAccount storage .storageAccess with
    | error e => exact ⟨rfl, h.unchanged rfl⟩
    | ok account => exact ⟨rfl, h.write hcontract key value⟩
  getStorage key := by
    apply simulates_traceAs
    intro s t h
    exact ⟨h.getStorage_eq hcontract key, h.unchanged rfl⟩
  emitEvent name data := by
    apply simulates_traceAs
    intro s t h
    exact h.emitEvent name data

/-! ## The two executions -/

/-- What both executions do to the store when the contract returns. -/
def publish (P : Primitives) (address : Bytes) (contract : Contract)
    (writes : List (Bytes × Bytes)) : StorageM Unit :=
  if writes = [] then pure ()
  else Db.write fun entries => committed P entries address contract writes

/-- Committing the staged writes publishes what was written. -/
theorem StagedCopy.commit_run {storage : Db} {context : WasmExecutionContext}
    {contract : Contract} {s : WasmVM × List HostEvent} {t : Reference × List HostEvent}
    (h : StagedCopy P storage context contract s t)
    (hcontract : requireContract storage context.contractAddress = .ok contract) :
    (commitContractStorageBatch P context.contractAddress s.1.stagedStorageWrites).run storage =
      (publish P context.contractAddress contract (storageWrites s.2)).run storage := by
  -- the staged map keeps the last write to each key, and only these matter to a commit
  have hlast : ∀ k, lastWrite s.1.stagedStorageWrites.toList k =
      lastWrite (storageWrites s.2) k := by
    intro k
    rw [lastWrite_toList, h.staged, getElem?_writeAll, Std.ExtTreeMap.getElem?_empty,
      Option.or_none]
  unfold publish
  split
  · next hnil =>
    rw [h.staged, hnil]
    rfl
  · next hne =>
    have hstaged : s.1.stagedStorageWrites ≠ ∅ := by
      intro hempty
      obtain ⟨writes, e, hlist⟩ := List.eq_nil_or_concat (storageWrites s.2) |>.resolve_left hne
      have hread := hlast e.1
      rw [lastWrite_toList, hempty, hlist, List.concat_eq_append, lastWrite_append,
        Std.ExtTreeMap.getElem?_empty] at hread
      simp [lastWrite] at hread
    rw [commitContractStorageBatch_run hcontract hstaged]
    apply Db.write_congr
    exact committed_congr _ _ _ hlast

/-- Publishing the copy does the same. -/
theorem StagedCopy.publish_run {storage : Db} {context : WasmExecutionContext}
    {contract : Contract} {s : WasmVM × List HostEvent} {t : Reference × List HostEvent}
    (h : StagedCopy P storage context contract s t) :
    (if t.1.written then Db.write fun _ => t.1.copy.entries else pure () : StorageM Unit).run
        storage =
      (publish P context.contractAddress contract (storageWrites s.2)).run storage := by
  rw [h.written, h.copy]
  unfold publish copied
  by_cases hnil : storageWrites s.2 = []
  · simp only [hnil, ne_eq, not_true_eq_false, decide_false, if_true, Bool.false_eq_true, if_false]
  · simp only [hnil, ne_eq, not_false_eq_true, decide_true, if_true, if_false]
    exact Db.write_congr rfl

/-- Publishing fails and changes nothing, or commits the writes. -/
theorem publish_cases {storage : Db} {address : Bytes} {contract : Contract}
    (hcontract : requireContract storage address = .ok contract)
    (writes : List (Bytes × Bytes)) :
    (∃ e, (publish P address contract writes).run storage = (.error e, storage)) ∨
      ∃ after, (publish P address contract writes).run storage = (.ok (), after) ∧
        CommitsWrites P storage address writes after := by
  unfold publish
  split
  · next hnil =>
    subst hnil
    exact .inr ⟨storage, rfl, fun k => rfl, fun hne => absurd rfl hne, fun _ => rfl,
      fun key _ _ => rfl⟩
  · next hne =>
    have hcommits : ∀ left, CommitsWrites P storage address writes
        ⟨committed P storage.entries address contract writes, left⟩ := by
      intro left
      refine ⟨?_, ?_, fun hnil => absurd hnil hne, ?_⟩
      · exact getElem?_committed_slot storage.entries address contract writes
      · exact fun _ => ⟨contract, hcontract, requireContract_committed hcontract rfl⟩
      · exact fun key hkey hslot => getElem?_committed_other _ _ _ _ hkey hslot
    rcases Db.write_cases (fun entries => committed P entries address contract writes) storage with
      hfail | ⟨left, hok⟩
    · exact .inl ⟨.backend, hfail⟩
    · exact .inr ⟨_, hok, hcommits left⟩

/-- Write to the store and return an outcome. -/
def finish (write : StorageM Unit) (outcome : WasmExecutionOutcome) :
    Procedure VmError Db WasmExecutionOutcome := do
  ExceptT.adapt VmError.storage write
  return outcome

theorem finish_congr {write write' : StorageM Unit} {storage : Db}
    (h : write.run storage = write'.run storage) (outcome : WasmExecutionOutcome) :
    (finish write outcome).run storage = (finish write' outcome).run storage := by
  rw [finish, finish, Procedure.bind_run, Procedure.bind_run, Procedure.adapt_run,
    Procedure.adapt_run, h]

theorem executeContractCall_run {storage : Db} {context : WasmExecutionContext} {method : String}
    {params : Bytes} {fuelLimit : UInt64} {contract : Contract} {vm : WasmVM}
    (h : prepareContractCall storage context method fuelLimit = .ok (contract, vm))
    {result : Except VmError UInt64} {s : WasmVM × List HostEvent}
    (hs : (runContract engine (WasmVM.host storage).traced params contract.codeWasm method
      fuelLimit).run (vm, []) = (result, s)) :
    (executeContractCall engine P context method params fuelLimit).run storage =
      (Procedure.lift result >>= fun remainingFuel =>
        finish (commitContractStorageBatch P context.contractAddress s.1.stagedStorageWrites)
          ⟨remainingFuel, s.1.pendingTransfers, s.1.emittedEvents⟩).run storage := by
  rw [executeContractCall, Procedure.read_bind_run, h]
  dsimp only
  rw [Procedure.read_bind_run, runContract_traced (WasmVM.host storage) params _ _ _ vm [], hs]
  cases result <;> rfl

theorem referenceContractCall_run {storage : Db} {context : WasmExecutionContext} {method : String}
    {params : Bytes} {fuelLimit : UInt64} {contract : Contract} {vm : WasmVM}
    (h : prepareContractCall storage context method fuelLimit = .ok (contract, vm))
    {result : Except VmError UInt64} {t : Reference × List HostEvent}
    (ht : (runContract engine (Reference.host P).traced params contract.codeWasm method
      fuelLimit).run (Reference.start storage vm, []) = (result, t)) :
    (referenceContractCall engine P context method params fuelLimit).run storage =
      (Procedure.lift result >>= fun remainingFuel =>
        finish (if t.1.written then Db.write fun _ => t.1.copy.entries else pure ())
          ⟨remainingFuel, t.1.vm.pendingTransfers, t.1.vm.emittedEvents⟩).run storage := by
  rw [referenceContractCall, Procedure.read_bind_run, h]
  dsimp only
  rw [Procedure.read_bind_run, runContract_traced (Reference.host P) params _ _ _ _ [], ht]
  cases result <;> rfl

/-- The fresh machine and the reference machine on a fresh copy are related. -/
theorem stagedCopy_start (storage : Db) (context : WasmExecutionContext) (contract : Contract)
    (fuelLimit : UInt64) :
    StagedCopy P storage context contract ({ context, fuelLimit }, [])
      (Reference.start storage { context, fuelLimit }, []) :=
  ⟨rfl, rfl, rfl, rfl, rfl, rfl⟩

/-- Both executions make one trace. Both fail before they write, or both publish the writes of the
trace. -/
theorem executions_cases (engine : WasmEngine) (P : Primitives) (storage : Db)
    (context : WasmExecutionContext) (method : String) (params : Bytes) (fuelLimit : UInt64) :
    ∃ trace,
      contractTrace engine (WasmVM.host storage) id storage context method params fuelLimit =
        trace ∧
      contractTrace engine (Reference.host P) (Reference.start storage) storage context method
        params fuelLimit = trace ∧
      ((∃ e, (executeContractCall engine P context method params fuelLimit).run storage =
            (.error e, storage) ∧
          (referenceContractCall engine P context method params fuelLimit).run storage =
            (.error e, storage)) ∨
        ∃ contract outcome, requireContract storage context.contractAddress = .ok contract ∧
          (executeContractCall engine P context method params fuelLimit).run storage =
            (finish (publish P context.contractAddress contract (storageWrites trace))
              outcome).run storage ∧
          (referenceContractCall engine P context method params fuelLimit).run storage =
            (finish (publish P context.contractAddress contract (storageWrites trace))
              outcome).run storage) := by
  cases hprepared : prepareContractCall storage context method fuelLimit with
  | error e =>
    refine ⟨[], by rw [contractTrace, hprepared], by rw [contractTrace, hprepared],
      .inl ⟨e, ?_, ?_⟩⟩
    · rw [executeContractCall, Procedure.read_bind_run, hprepared]
    · rw [referenceContractCall, Procedure.read_bind_run, hprepared]
  -- from here on the two executions run the same code on related machines
  | ok prepared =>
    obtain ⟨contract, vm⟩ := prepared
    obtain ⟨hcontract, rfl⟩ := prepareContractCall_ok hprepared
    have hsimulates : Simulates (StagedCopy P storage context contract)
        (runContract engine (WasmVM.host storage).traced params contract.codeWasm method fuelLimit)
        (runContract engine (Reference.host P).traced params contract.codeWasm method fuelLimit) :=
      simulates_runContract (hostSimulates_reference hcontract) params _ _ _
    obtain ⟨hresult, hrelated⟩ :=
      hsimulates _ _ (stagedCopy_start storage context contract fuelLimit)
    rcases hs : (runContract engine (WasmVM.host storage).traced params contract.codeWasm method
      fuelLimit).run ({ context, fuelLimit }, []) with ⟨result, s⟩
    rcases ht : (runContract engine (Reference.host P).traced params contract.codeWasm method
      fuelLimit).run (Reference.start storage { context, fuelLimit }, []) with ⟨result', t⟩
    rw [hs, ht] at hresult hrelated
    obtain rfl : result = result' := hresult
    refine ⟨s.2, ?_, ?_, ?_⟩
    · rw [contractTrace, hprepared]
      exact congrArg (fun r => r.2.2) hs
    · rw [contractTrace, hprepared, ← hrelated.trace]
      exact congrArg (fun r => r.2.2) ht
    · rw [executeContractCall_run hprepared hs, referenceContractCall_run hprepared ht]
      cases result with
      | error e => exact .inl ⟨e, rfl, rfl⟩
      | ok remainingFuel =>
        refine .inr ⟨contract, _, hcontract, finish_congr (hrelated.commit_run hcontract) _, ?_⟩
        rw [hrelated.vm]
        exact finish_congr hrelated.publish_run _

/-- Finishing fails and changes nothing, or commits the writes. -/
theorem finish_publish_cases {storage : Db} {address : Bytes} {contract : Contract}
    (hcontract : requireContract storage address = .ok contract)
    (writes : List (Bytes × Bytes)) (outcome : WasmExecutionOutcome) :
    (∃ e, (finish (publish P address contract writes) outcome).run storage = (.error e, storage)) ∨
      ∃ after, (finish (publish P address contract writes) outcome).run storage =
        (.ok outcome, after) ∧ CommitsWrites P storage address writes after := by
  rcases publish_cases (P := P) hcontract writes with ⟨e, hfail⟩ | ⟨after, hok, hcommits⟩
  · refine .inl ⟨.storage e, ?_⟩
    rw [finish, Procedure.bind_run, Procedure.adapt_run, hfail]
    rfl
  · refine .inr ⟨after, ?_, hcommits⟩
    rw [finish, Procedure.bind_run, Procedure.adapt_run, hok]
    rfl

/-- An execution fails and changes nothing, or it commits the writes of its trace. -/
theorem executeContractCall_cases (engine : WasmEngine) (P : Primitives) (storage : Db)
    (context : WasmExecutionContext) (method : String) (params : Bytes) (fuelLimit : UInt64) :
    (∃ e, (executeContractCall engine P context method params fuelLimit).run storage =
        (.error e, storage)) ∨
      ∃ outcome after, (executeContractCall engine P context method params fuelLimit).run storage =
          (.ok outcome, after) ∧
        CommitsWrites P storage context.contractAddress (storageWrites (contractTrace engine
          (WasmVM.host storage) id storage context method params fuelLimit)) after := by
  obtain ⟨trace, htrace, -, hcases⟩ :=
    executions_cases engine P storage context method params fuelLimit
  rw [htrace]
  rcases hcases with ⟨e, hrun, -⟩ | ⟨contract, outcome, hcontract, hrun, -⟩
  · exact .inl ⟨e, hrun⟩
  · rw [hrun]
    rcases finish_publish_cases (P := P) hcontract (storageWrites trace) outcome with
      hfail | ⟨after, hok, hcommits⟩
    · exact .inl hfail
    · exact .inr ⟨outcome, after, hok, hcommits⟩

/-- **Execution is a transaction.** For every store, contract and engine, the execution makes the
same trace as the reference execution and has the same result and store. When it fails, the store
is as before; when it succeeds, the writes of the trace are committed and nothing else changes. -/
theorem execution_is_transaction (engine : WasmEngine) (P : Primitives) (storage : Db)
    (context : WasmExecutionContext) (method : String) (params : Bytes) (fuelLimit : UInt64) :
    let trace := contractTrace engine (WasmVM.host storage) id storage context method params
      fuelLimit
    let run := (executeContractCall engine P context method params fuelLimit).run storage
    trace = contractTrace engine (Reference.host P) (Reference.start storage) storage context method
        params fuelLimit ∧
      run = (referenceContractCall engine P context method params fuelLimit).run storage ∧
      (∀ e, run.1 = .error e → run.2 = storage) ∧
      ∀ outcome, run.1 = .ok outcome →
        CommitsWrites P storage context.contractAddress (storageWrites trace) run.2 := by
  intro trace run
  obtain ⟨trace', htrace, hreference, hcases⟩ :=
    executions_cases engine P storage context method params fuelLimit
  obtain rfl : trace = trace' := htrace
  have hsame : run = (referenceContractCall engine P context method params
      fuelLimit).run storage := by
    rcases hcases with ⟨e, hrun, href⟩ | ⟨contract, outcome, hcontract, hrun, href⟩
    · exact hrun.trans href.symm
    · exact hrun.trans href.symm
  refine ⟨hreference.symm, hsame, ?_⟩
  rcases executeContractCall_cases engine P storage context method params fuelLimit with
    ⟨e, hfail⟩ | ⟨outcome, after, hok, hcommits⟩
  · have hrun : run = (.error e, storage) := hfail
    rw [hrun]
    exact ⟨fun _ _ => rfl, fun outcome h => nomatch h⟩
  · have hrun : run = (.ok outcome, after) := hok
    rw [hrun]
    exact ⟨fun e h => (nomatch h), fun _ _ => hcommits⟩

end Reference

end Prims
