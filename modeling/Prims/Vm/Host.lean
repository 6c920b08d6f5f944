import Prims.Lib.Text
import Prims.Storage.Backend

/-!
# The host side of contract execution

The state of `WasmVM`, its operations, and the functions that `build_linker` gives to a contract. A
contract passes byte strings through its memory: the linked functions read their arguments from
there, call an operation of the machine, and write their results back. The machine does not write
to the store: it stages the slots that a contract sets, and looks there first when a slot is read.

The linked functions are written once over the operations they use, so that they can be linked
with other machines as well.

## Main definitions

* `WasmVM`: the state of the machine, with its operations
* `HostInterface σ`: the operations that a contract reaches, on any state `σ`
* `HostCall`, `buildLinker`: the linked functions
* `HostSimulates`: machines whose operations simulate one another
* `HostInterface.traced`: the operations, with a trace of their arguments and results

## Main results

* `transfer_run`, `setStorage_run`, `emitEvent_run`: what the operations do
* `hostSimulates_traced`: the trace does not change what the operations do
-/

namespace Prims

/-! ## The machine -/

/-- What a contract is told about its call. -/
structure WasmExecutionContext where
  contractAddress : Bytes := []
  caller : Bytes := []
  blockHeight : UInt64 := 0
  shardId : UInt16 := 0
  deriving DecidableEq, Repr

structure ContractEvent where
  contractAddress : Bytes
  name : Bytes
  data : Bytes
  blockHeight : UInt64
  deriving DecidableEq, Repr

/-- What needs a contract, as the errors name it. -/
inductive VmOperation where
  | contractExecution
  | storageAccess
  | transfer
  | emitEvent
  deriving DecidableEq, Repr

/-- What is too long for a 32-bit result, as the errors name it. -/
inductive LengthKind where
  | caller
  | params
  | storageValue
  deriving DecidableEq, Repr

/-- The reasons a call fails. -/
inductive VmError where
  | emptyMethod
  | contractDoesNotExist
  | zeroFuelLimit
  | contractAddressRequired (operation : VmOperation)
  | contractAccountDoesNotExist
  | contractAccountRequired (operation : VmOperation)
  | recipientRequired
  | transferAmountOverflow
  | insufficientBalance (balance required : UInt64)
  | senderNonceOverflow
  | emptyEventName
  | negativeMemoryOffset
  | memoryRangeOverflow
  | memoryExportRequired
  | memoryAccessOutOfBounds
  | memoryWriteOutOfBounds
  | lengthExceedsI32 (kind : LengthKind)
  | balanceExceedsI64
  | negativeTransferAmount
  | storage (error : StorageError)
  | unresolvedMethod (method error : String)
  | wasm (error : String)
  deriving DecidableEq, Repr

/-- `DEFAULT_WASM_FUEL_LIMIT` -/
def defaultWasmFuelLimit : UInt64 := 100000

structure WasmVM where
  context : WasmExecutionContext := {}
  pendingTransfers : List Transaction := []
  emittedEvents : List ContractEvent := []
  stagedStorageWrites : ByteMap := ∅
  fuelLimit : UInt64 := defaultWasmFuelLimit

namespace WasmVM

def setFuelLimit (vm : WasmVM) (fuelLimit : UInt64) : Except VmError WasmVM := do
  ensure (fuelLimit ≠ 0) .zeroFuelLimit
  return { vm with fuelLimit }

def requireContractAddress (vm : WasmVM) (operation : VmOperation) : Except VmError Bytes := do
  ensure (vm.context.contractAddress ≠ []) (.contractAddressRequired operation)
  return vm.context.contractAddress

def requireContractAccount (vm : WasmVM) (storage : Db) (operation : VmOperation) :
    Except VmError Account := do
  let contractAddress ← vm.requireContractAddress operation
  let account ← ((getAccount storage contractAddress).mapError .storage)
  let account ← account.okOr .contractAccountDoesNotExist
  ensure account.codeHash.isSome (.contractAccountRequired operation)
  return account

def getBalance (storage : Db) (address : Bytes) : Except VmError UInt64 := do
  let account ← (getAccount storage address).mapError .storage
  return (account.map Account.balance).getD 0

/-- The transaction of a transfer by the contract. -/
def transferTransaction (vm : WasmVM) (storage : Db) (recipient : Bytes) (amount : UInt64)
    (data : Option Bytes) : Except VmError Transaction := do
  let _ ← vm.requireContractAddress .transfer
  ensure (recipient ≠ []) .recipientRequired
  let sender ← vm.requireContractAccount storage .transfer
  let required ← (amount.checkedAdd fixedTransactionFee).okOr .transferAmountOverflow
  ensure (required ≤ sender.balance) (.insufficientBalance sender.balance required)
  let nextNonce ← (sender.nonce.checkedAdd 1).okOr .senderNonceOverflow
  return {
    txType := .transfer
    sender := vm.context.contractAddress
    recipient
    amount
    fee := fixedTransactionFee
    nonce := nextNonce
    sourceShard := vm.context.shardId
    destinationShard := vm.context.shardId
    signature := []
    data }

/-- A transfer is queued; nothing is paid here. -/
def transfer (storage : Db) (recipient : Bytes) (amount : UInt64) (data : Option Bytes) :
    Procedure VmError WasmVM Transaction := do
  let transaction ← Procedure.read fun vm => vm.transferTransaction storage recipient amount data
  Procedure.modify fun vm => { vm with pendingTransfers := vm.pendingTransfers ++ [transaction] }
  return transaction

def setStorage (storage : Db) (key value : Bytes) : Procedure VmError WasmVM Unit := do
  let _ ← Procedure.read fun vm => vm.requireContractAddress .storageAccess
  let _ ← Procedure.read fun vm => vm.requireContractAccount storage .storageAccess
  Procedure.modify fun vm =>
    { vm with stagedStorageWrites := vm.stagedStorageWrites.insert key value }

def getStorage (vm : WasmVM) (storage : Db) (key : Bytes) : Except VmError (Option Bytes) := do
  let contractAddress ← vm.requireContractAddress .storageAccess
  let _ ← vm.requireContractAccount storage .storageAccess
  match vm.stagedStorageWrites[key]? with
  | some value => return some value
  | none => (getContractStorage storage contractAddress key).mapError .storage

def emitEvent (name data : Bytes) : Procedure VmError WasmVM Unit := do
  let _ ← Procedure.read fun vm => vm.requireContractAddress .emitEvent
  Procedure.lift (ensure (name ≠ []) .emptyEventName)
  Procedure.modify fun vm => { vm with
    emittedEvents := vm.emittedEvents ++ [{
      contractAddress := vm.context.contractAddress
      name
      data
      blockHeight := vm.context.blockHeight }] }

/-! ### What the operations do -/

/-- Requiring the account requires the address as well. -/
theorem requireContractAddress_bind {α : Type} (vm : WasmVM) (storage : Db)
    (operation : VmOperation) (f : Bytes → Account → Except VmError α) :
    (do
      let contractAddress ← vm.requireContractAddress operation
      let account ← vm.requireContractAccount storage operation
      f contractAddress account) =
      vm.requireContractAccount storage operation >>= f vm.context.contractAddress := by
  unfold requireContractAccount requireContractAddress ensure
  split <;> rfl

theorem transfer_run (storage : Db) (recipient : Bytes) (amount : UInt64) (data : Option Bytes)
    (vm : WasmVM) :
    (transfer storage recipient amount data).run vm =
      match vm.transferTransaction storage recipient amount data with
      | .ok transaction =>
        (.ok transaction, { vm with pendingTransfers := vm.pendingTransfers ++ [transaction] })
      | .error e => (.error e, vm) := by
  rw [transfer, Procedure.read_bind_run]
  cases vm.transferTransaction storage recipient amount data <;> rfl

theorem setStorage_run (storage : Db) (key value : Bytes) (vm : WasmVM) :
    (setStorage storage key value).run vm =
      match vm.requireContractAccount storage .storageAccess with
      | .ok _ => (.ok (), { vm with
          stagedStorageWrites := vm.stagedStorageWrites.insert key value })
      | .error e => (.error e, vm) := by
  rw [setStorage, Procedure.read_bind_run]
  cases haddress : vm.requireContractAddress .storageAccess with
  | error e =>
    rw [requireContractAccount, haddress]
    rfl
  | ok address =>
    dsimp only
    rw [Procedure.read_bind_run]
    cases vm.requireContractAccount storage .storageAccess <;> rfl

theorem emitEvent_run (name data : Bytes) (vm : WasmVM) :
    (emitEvent name data).run vm =
      match (do
        let _ ← vm.requireContractAddress .emitEvent
        ensure (name ≠ []) .emptyEventName : Except VmError Unit) with
      | .ok _ => (.ok (), { vm with
          emittedEvents := vm.emittedEvents ++ [{
            contractAddress := vm.context.contractAddress
            name
            data
            blockHeight := vm.context.blockHeight }] })
      | .error e => (.error e, vm) := by
  rw [emitEvent, Procedure.read_bind_run]
  cases vm.requireContractAddress .emitEvent with
  | error e => rfl
  | ok address =>
    generalize ensure (name ≠ []) VmError.emptyEventName = check
    cases check <;> rfl

end WasmVM

/-! ## The linked functions -/

/-- The operations of a machine that a contract reaches. -/
structure HostInterface (σ : Type) where
  getCaller : σ → Bytes
  getBlockHeight : σ → UInt64
  getBalance : Bytes → Procedure VmError σ UInt64
  transfer : Bytes → UInt64 → Option Bytes → Procedure VmError σ Transaction
  setStorage : Bytes → Bytes → Procedure VmError σ Unit
  getStorage : Bytes → Procedure VmError σ (Option Bytes)
  emitEvent : Bytes → Bytes → Procedure VmError σ Unit

/-- The operations of `WasmVM` on a store. -/
def WasmVM.host (storage : Db) : HostInterface WasmVM where
  getCaller vm := vm.context.caller
  getBlockHeight vm := vm.context.blockHeight
  getBalance address := Procedure.lift (WasmVM.getBalance storage address)
  transfer := WasmVM.transfer storage
  setStorage := WasmVM.setStorage storage
  getStorage key := Procedure.read fun vm => vm.getStorage storage key
  emitEvent := WasmVM.emitEvent

/-- What a contract exports as `memory`, when it exports a memory of that name. -/
abbrev Memory := Option Bytes

/-- A byte range of the memory. -/
def readMemory (memory : Memory) (ptr len : Int32) : Except VmError Bytes := do
  ensure (0 ≤ ptr ∧ 0 ≤ len) .negativeMemoryOffset
  let start := ptr.toInt.toNat
  let stop := start + len.toInt.toNat
  ensure (stop < 2 ^ 64) .memoryRangeOverflow
  let data ← memory.okOr .memoryExportRequired
  ensure (stop ≤ data.length) .memoryAccessOutOfBounds
  return (data.drop start).take (stop - start)

/-- The memory with a byte string written to it. -/
def writeMemory (memory : Memory) (ptr : Int32) (bytes : Bytes) : Except VmError Memory := do
  ensure (0 ≤ ptr) .negativeMemoryOffset
  let start := ptr.toInt.toNat
  let stop := start + bytes.length
  ensure (stop < 2 ^ 64) .memoryRangeOverflow
  let data ← memory.okOr .memoryExportRequired
  ensure (stop ≤ data.length) .memoryWriteOutOfBounds
  return some (data.take start ++ bytes ++ data.drop stop)

/-- A length as a 32-bit result. -/
def lengthI32 (kind : LengthKind) (bytes : Bytes) : Except VmError Int32 := do
  ensure (bytes.length < 2 ^ 31) (.lengthExceedsI32 kind)
  return Int32.ofNat bytes.length

/-- The calls a contract makes to the functions of the module `prims`, with their arguments. -/
inductive HostCall where
  | getBlockHeight
  | getCallerLen
  | copyCaller (outPtr : Int32)
  | getParamsLen
  | copyParams (outPtr : Int32)
  | getBalance (addressPtr addressLen : Int32)
  | setStorage (keyPtr keyLen valuePtr valueLen : Int32)
  | getStorageLen (keyPtr keyLen : Int32)
  | copyStorage (keyPtr keyLen outPtr : Int32)
  | emitEvent (namePtr nameLen dataPtr dataLen : Int32)
  | transfer (toPtr toLen : Int32) (amount : Int64)
  deriving DecidableEq, Repr

/-- What a linked function returns. -/
inductive HostValue where
  | unit
  | i32 (value : Int32)
  | i64 (value : Int64)
  deriving DecidableEq, Repr

section Linker

variable {σ τ : Type}

/-- The linked functions: from the memory and the call, the result and the memory after it. -/
def buildLinker (host : HostInterface σ) (params : Bytes) :
    Memory × HostCall → Procedure VmError σ (HostValue × Memory)
  | (memory, .getBlockHeight) => do
    let height ← Procedure.read fun s => .ok (host.getBlockHeight s)
    return (.i64 height.toInt64, memory)
  | (memory, .getCallerLen) => do
    let caller ← Procedure.read fun s => .ok (host.getCaller s)
    let len ← Procedure.lift (lengthI32 .caller caller)
    return (.i32 len, memory)
  | (memory, .copyCaller outPtr) => do
    let bytes ← Procedure.read fun s => .ok (host.getCaller s)
    let memory ← Procedure.lift (writeMemory memory outPtr bytes)
    let len ← Procedure.lift (lengthI32 .caller bytes)
    return (.i32 len, memory)
  | (memory, .getParamsLen) => do
    let len ← Procedure.lift (lengthI32 .params params)
    return (.i32 len, memory)
  | (memory, .copyParams outPtr) => do
    let memory ← Procedure.lift (writeMemory memory outPtr params)
    let len ← Procedure.lift (lengthI32 .params params)
    return (.i32 len, memory)
  | (memory, .getBalance addressPtr addressLen) => do
    let address ← Procedure.lift (readMemory memory addressPtr addressLen)
    let balance ← host.getBalance address
    Procedure.lift (ensure (balance.toNat < 2 ^ 63) .balanceExceedsI64)
    return (.i64 balance.toInt64, memory)
  | (memory, .setStorage keyPtr keyLen valuePtr valueLen) => do
    let key ← Procedure.lift (readMemory memory keyPtr keyLen)
    let value ← Procedure.lift (readMemory memory valuePtr valueLen)
    host.setStorage key value
    return (.unit, memory)
  | (memory, .getStorageLen keyPtr keyLen) => do
    let key ← Procedure.lift (readMemory memory keyPtr keyLen)
    match ← host.getStorage key with
    | some value => do
      let len ← Procedure.lift (lengthI32 .storageValue value)
      return (.i32 len, memory)
    | none => return (.i32 (-1), memory)
  | (memory, .copyStorage keyPtr keyLen outPtr) => do
    let key ← Procedure.lift (readMemory memory keyPtr keyLen)
    match ← host.getStorage key with
    | some value => do
      let len ← Procedure.lift (lengthI32 .storageValue value)
      let memory ← Procedure.lift (writeMemory memory outPtr value)
      return (.i32 len, memory)
    | none => return (.i32 (-1), memory)
  | (memory, .emitEvent namePtr nameLen dataPtr dataLen) => do
    let name ← Procedure.lift (readMemory memory namePtr nameLen)
    let data ← Procedure.lift (readMemory memory dataPtr dataLen)
    host.emitEvent name data
    return (.unit, memory)
  | (memory, .transfer toPtr toLen amount) => do
    Procedure.lift (ensure (0 ≤ amount) .negativeTransferAmount)
    let recipient ← Procedure.lift (readMemory memory toPtr toLen)
    let _ ← host.transfer recipient amount.toUInt64 none
    return (.unit, memory)

/-- Machines whose operations simulate one another. -/
structure HostSimulates (R : σ → τ → Prop) (host : HostInterface σ) (host' : HostInterface τ) :
    Prop where
  getCaller : ∀ s t, R s t → host.getCaller s = host'.getCaller t
  getBlockHeight : ∀ s t, R s t → host.getBlockHeight s = host'.getBlockHeight t
  getBalance : ∀ address, Simulates R (host.getBalance address) (host'.getBalance address)
  transfer : ∀ recipient amount data,
    Simulates R (host.transfer recipient amount data) (host'.transfer recipient amount data)
  setStorage : ∀ key value, Simulates R (host.setStorage key value) (host'.setStorage key value)
  getStorage : ∀ key, Simulates R (host.getStorage key) (host'.getStorage key)
  emitEvent : ∀ name data, Simulates R (host.emitEvent name data) (host'.emitEvent name data)

/-! ## Traces -/

/-- An operation that a contract reached, with its arguments and its result. -/
inductive HostEvent where
  | getBalance (address : Bytes) (result : Except VmError UInt64)
  | transfer (recipient : Bytes) (amount : UInt64) (data : Option Bytes)
      (result : Except VmError Transaction)
  | setStorage (key value : Bytes) (result : Except VmError Unit)
  | getStorage (key : Bytes) (result : Except VmError (Option Bytes))
  | emitEvent (name data : Bytes) (result : Except VmError Unit)

/-- Run a procedure and add its result to the trace. -/
def traceAs {α : Type} (event : Except VmError α → HostEvent) (m : Procedure VmError σ α) :
    Procedure VmError (σ × List HostEvent) α := fun (s, trace) =>
  let (result, s') := m.run s
  (result, s', trace ++ [event result])

/-- Traced procedures simulate one another when they have one result and the relation holds with
the new event in both traces. -/
theorem simulates_traceAs {R : σ × List HostEvent → τ × List HostEvent → Prop} {α : Type}
    {event : Except VmError α → HostEvent} {m : Procedure VmError σ α} {n : Procedure VmError τ α}
    (h : ∀ s t, R s t → (n.run t.1).1 = (m.run s.1).1 ∧
      R ((m.run s.1).2, s.2 ++ [event (m.run s.1).1])
        ((n.run t.1).2, t.2 ++ [event (m.run s.1).1])) :
    Simulates R (traceAs event m) (traceAs event n) := by
  intro s t hr
  obtain ⟨hresult, hstate⟩ := h s t hr
  refine ⟨hresult.symm, ?_⟩
  show R ((m.run s.1).2, s.2 ++ [event (m.run s.1).1])
    ((n.run t.1).2, t.2 ++ [event (n.run t.1).1])
  rwa [hresult]

/-- The operations of a machine, with a trace. -/
def HostInterface.traced (host : HostInterface σ) : HostInterface (σ × List HostEvent) where
  getCaller s := host.getCaller s.1
  getBlockHeight s := host.getBlockHeight s.1
  getBalance address := traceAs (.getBalance address) (host.getBalance address)
  transfer recipient amount data :=
    traceAs (.transfer recipient amount data) (host.transfer recipient amount data)
  setStorage key value := traceAs (.setStorage key value) (host.setStorage key value)
  getStorage key := traceAs (.getStorage key) (host.getStorage key)
  emitEvent name data := traceAs (.emitEvent name data) (host.emitEvent name data)

/-- The trace does not change what the operations do. -/
theorem hostSimulates_traced (host : HostInterface σ) :
    HostSimulates (fun s t => s.1 = t) host.traced host where
  getCaller := by rintro s _ rfl; rfl
  getBlockHeight := by rintro s _ rfl; rfl
  getBalance address := by rintro s _ rfl; exact ⟨rfl, rfl⟩
  transfer recipient amount data := by rintro s _ rfl; exact ⟨rfl, rfl⟩
  setStorage key value := by rintro s _ rfl; exact ⟨rfl, rfl⟩
  getStorage key := by rintro s _ rfl; exact ⟨rfl, rfl⟩
  emitEvent name data := by rintro s _ rfl; exact ⟨rfl, rfl⟩

/-- The slots that were written, in the order of the writes. -/
def storageWrites (trace : List HostEvent) : List (Bytes × Bytes) :=
  trace.filterMap fun
    | .setStorage key value (.ok _) => some (key, value)
    | _ => none

end Linker

end Prims
