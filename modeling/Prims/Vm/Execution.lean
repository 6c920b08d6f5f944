import Prims.Vm.Memory

/-!
# Contract execution

`execute_contract_call`: the checks, the run of the contract, and the commit of the slots it
staged. A contract is arbitrary code: it runs on the engine, where it makes host calls while it is
instantiated and while its method runs, each of them chosen from the results of the calls before.
The engine is a parameter. It runs one host call after the other, and it stops the contract at the
first one that fails; the contract may also trap or run out of fuel.

## Main definitions

* `WasmEngine`: what the program takes from its engine
* `executeContractCall`: the execution, on the store
* `contractTrace`: the operations that the contract reaches, with their results

## Main results

* `simulates_runContract`: no contract tells machines that simulate one another apart
-/

namespace Prims

/-! ## The engine -/

/-- The run of a contract: host calls, and a result or an error of the engine at the end. -/
abbrev Guest (α : Type) := Interaction (Memory × HostCall) (HostValue × Memory) (Except String α)

/-- An instance: a method is resolved, and its run returns the fuel that is left. -/
abbrev WasmInstance := String → Except String (Guest UInt64)

/-- **The engine**: it compiles a module and instantiates it with some fuel, which may run code of
the contract. Reading the fuel of a metered store does not fail. -/
structure WasmEngine where
  instantiate (codeWasm : Bytes) (fuelLimit : UInt64) : Except String (Guest WasmInstance)

structure WasmExecutionOutcome where
  remainingFuel : UInt64
  pendingTransfers : List Transaction
  emittedEvents : List ContractEvent
  deriving DecidableEq, Repr

section Execution

variable (engine : WasmEngine) {σ τ : Type}

/-- Run a contract with the given linked functions. -/
def Guest.exec {α : Type} (guest : Guest α)
    (linker : Memory × HostCall → Procedure VmError σ (HostValue × Memory)) :
    Procedure VmError σ α := do
  let result ← Interaction.run linker guest
  Procedure.lift (result.mapError .wasm)

/-- Instantiate a module, resolve a method and run it. -/
def runContract (host : HostInterface σ) (params codeWasm : Bytes) (method : String)
    (fuelLimit : UInt64) : Procedure VmError σ UInt64 := do
  let start ← Procedure.lift ((engine.instantiate codeWasm fuelLimit).mapError .wasm)
  let wasmInstance ← start.exec (buildLinker host params)
  let entry ← Procedure.lift ((wasmInstance method).mapError (.unresolvedMethod method))
  entry.exec (buildLinker host params)

/-- The checks before a contract runs; they give the contract and a fresh machine. -/
def prepareContractCall (storage : Db) (context : WasmExecutionContext) (method : String)
    (fuelLimit : UInt64) : Except VmError (Contract × WasmVM) := do
  ensure (Text.trim method.toList ≠ []) .emptyMethod
  let contract ← (getContract storage context.contractAddress).mapError .storage
  let contract ← contract.okOr .contractDoesNotExist
  let vm ← WasmVM.setFuelLimit { context } fuelLimit
  let _ ← vm.requireContractAccount storage .contractExecution
  return (contract, vm)

variable (P : Primitives)

def executeContractCall (context : WasmExecutionContext) (method : String) (params : Bytes)
    (fuelLimit : UInt64) : Procedure VmError Db WasmExecutionOutcome := do
  let prepared ← Procedure.read fun storage => prepareContractCall storage context method fuelLimit
  let final ← Procedure.read fun storage =>
    let run := (runContract engine (WasmVM.host storage) params prepared.1.codeWasm method
      fuelLimit).run prepared.2
    run.1.map fun remainingFuel => (remainingFuel, run.2)
  ExceptT.adapt VmError.storage
    (commitContractStorageBatch P context.contractAddress final.2.stagedStorageWrites)
  return ⟨final.1, final.2.pendingTransfers, final.2.emittedEvents⟩

/-- The operations that a contract reaches on a machine, with their results. -/
def contractTrace (host : HostInterface σ) (start : WasmVM → σ) (storage : Db)
    (context : WasmExecutionContext) (method : String) (params : Bytes) (fuelLimit : UInt64) :
    List HostEvent :=
  match prepareContractCall storage context method fuelLimit with
  | .error _ => []
  | .ok (contract, vm) =>
    ((runContract engine host.traced params contract.codeWasm method fuelLimit).run
      (start vm, [])).2.2

variable {engine}

/-! ## The machines simulate one another -/

theorem simulates_exec {R : σ → τ → Prop} {host : HostInterface σ} {host' : HostInterface τ}
    (h : HostSimulates R host host') (params : Bytes) {α : Type} (guest : Guest α) :
    Simulates R (guest.exec (buildLinker host params)) (guest.exec (buildLinker host' params)) :=
  (Simulates.run (simulates_buildLinker h params) guest).bind fun _ => simulates_lift _

/-- No contract tells machines that simulate one another apart. -/
theorem simulates_runContract {R : σ → τ → Prop} {host : HostInterface σ}
    {host' : HostInterface τ} (h : HostSimulates R host host') (params codeWasm : Bytes)
    (method : String) (fuelLimit : UInt64) :
    Simulates R (runContract engine host params codeWasm method fuelLimit)
      (runContract engine host' params codeWasm method fuelLimit) := by
  refine (simulates_lift _).bind fun start => ?_
  refine (simulates_exec h params start).bind fun wasmInstance => ?_
  refine (simulates_lift _).bind fun entry => ?_
  exact simulates_exec h params entry

/-- A traced run is the run, with a trace. -/
theorem runContract_traced (host : HostInterface σ) (params codeWasm : Bytes) (method : String)
    (fuelLimit : UInt64) (s : σ) (trace : List HostEvent) :
    let traced := (runContract engine host.traced params codeWasm method fuelLimit).run (s, trace)
    (runContract engine host params codeWasm method fuelLimit).run s = (traced.1, traced.2.1) := by
  have h : Simulates (fun s t => s.1 = t)
      (runContract engine host.traced params codeWasm method fuelLimit)
      (runContract engine host params codeWasm method fuelLimit) :=
    simulates_runContract (hostSimulates_traced host) params codeWasm method fuelLimit
  obtain ⟨hresult, hstate⟩ := h (s, trace) s rfl
  exact Prod.ext hresult.symm hstate.symm

/-- A contract that is called exists, and its machine is fresh. -/
theorem prepareContractCall_ok {storage : Db} {context : WasmExecutionContext} {method : String}
    {fuelLimit : UInt64} {contract : Contract} {vm : WasmVM}
    (h : prepareContractCall storage context method fuelLimit = .ok (contract, vm)) :
    requireContract storage context.contractAddress = .ok contract ∧
      vm = { context, fuelLimit } := by
  unfold prepareContractCall WasmVM.setFuelLimit at h
  rw [ensure_bind_eq_ok, Except.bind_eq_ok] at h
  obtain ⟨-, found, hfound, h⟩ := h
  rw [Except.mapError_eq_ok] at hfound
  rw [Except.bind_eq_ok] at h
  obtain ⟨contract', hsome, h⟩ := h
  rw [Except.bind_eq_ok] at h
  obtain ⟨vm', hvm, h⟩ := h
  rw [ensure_bind_eq_ok] at hvm
  obtain ⟨-, ⟨⟩⟩ := hvm
  rw [Except.bind_eq_ok] at h
  obtain ⟨account, -, ⟨⟩⟩ := h
  refine ⟨?_, rfl⟩
  rw [requireContract, hfound]
  cases found with
  | none => cases hsome
  | some found =>
    cases hsome
    rfl

end Execution

end Prims
