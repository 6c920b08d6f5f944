import Prims.Lib.Postcondition
import Prims.Vm.Host

/-!
# Memory safety of the host functions

A contract names the bytes it passes by a pointer and a length, which are signed 32-bit integers of
its choice. A linked function acts on its caller: on the machine and on the memory of the contract,
where a write stays written when a later step fails. Here the linked functions are given once more,
as they act on the caller in place; without the memory of a failed call they are the functions of
`build_linker`.

A function that succeeds has read ranges inside the memory only, and it depends on no other byte. A
function that fails has left everything as it was: every function checks before it writes, except
that the length of the caller's address and of the parameters is checked after they were copied, so
that these have to be shorter than `2 ^ 31` bytes.

## Main definitions

* `Caller`: the machine and the memory of the contract
* `hostFunction`: the linked functions, in place
* `HostCall.reads`: the ranges that a call reads
* `WrittenAt`, `HostCall.MemoryEffect`: what a call writes

## Main results

* `buildLinker_eq_detach`: the two accounts of the linked functions agree
* `simulates_hostFunction`: machines that simulate one another, with memories that no read of the
  call tells apart, give linked functions that do
* `simulates_buildLinker`: the same for the functions of `build_linker`
* `readMemory_isOk_iff`, `writeMemory_isOk_iff`: when an access succeeds
* `host_functions_respect_memory`: no function reads or writes outside the memory, or fails halfway
-/

namespace Prims

open Bincode

/-! ## The linked functions, in place -/

/-- What a linked function acts on: the machine, and the memory of the contract. -/
structure Caller (σ : Type) where
  vm : σ
  memory : Memory

namespace Caller

variable {σ α β : Type}

def readMemory (ptr len : Int32) : Procedure VmError (Caller σ) Bytes :=
  Procedure.read fun caller => Prims.readMemory caller.memory ptr len

def writeMemory (ptr : Int32) (bytes : Bytes) : Procedure VmError (Caller σ) Unit := fun caller =>
  match Prims.writeMemory caller.memory ptr bytes with
  | .ok memory => (.ok (), { caller with memory })
  | .error e => (.error e, caller)

theorem writeMemory_run (ptr : Int32) (bytes : Bytes) (caller : Caller σ) :
    (writeMemory ptr bytes).run caller =
      match Prims.writeMemory caller.memory ptr bytes with
      | .ok memory => (.ok (), { caller with memory })
      | .error e => (.error e, caller) := rfl

/-- An operation of the machine. -/
def onVm (m : Procedure VmError σ α) : Procedure VmError (Caller σ) α :=
  Procedure.zoom Caller.vm (fun caller vm => { caller with vm }) m

/-- A function on the caller as a function on the machine: it takes the memory, and it returns the
memory when it succeeds. -/
def detach (m : Procedure VmError (Caller σ) α) (memory : Memory) :
    Procedure VmError σ (α × Memory) := fun vm =>
  match m.run ⟨vm, memory⟩ with
  | (.ok a, caller) => (.ok (a, caller.memory), caller.vm)
  | (.error e, caller) => (.error e, caller.vm)

theorem detach_run (m : Procedure VmError (Caller σ) α) (memory : Memory) (vm : σ) :
    (detach m memory).run vm =
      match m.run ⟨vm, memory⟩ with
      | (.ok a, caller) => (.ok (a, caller.memory), caller.vm)
      | (.error e, caller) => (.error e, caller.vm) := rfl

/-! ### The parts of a function, detached -/

theorem detach_pure (a : α) (memory : Memory) :
    detach (pure a : Procedure VmError (Caller σ) α) memory = pure (a, memory) := rfl

variable {f : α → Procedure VmError (Caller σ) β}

theorem detach_lift_bind (x : Except VmError α) (memory : Memory) :
    detach (Procedure.lift x >>= f) memory =
      Procedure.lift x >>= fun a => detach (f a) memory := by
  cases x <;> rfl

theorem detach_onVm_bind (m : Procedure VmError σ α) (memory : Memory) :
    detach (onVm m >>= f) memory = m >>= fun a => detach (f a) memory := by
  funext vm
  show _ = (m >>= fun a => detach (f a) memory).run vm
  rw [detach, onVm, Procedure.zoom_bind_run, Procedure.bind_run]
  rcases m.run vm with ⟨result, vm'⟩
  cases result <;> rfl

theorem detach_readMemory_bind {f : Bytes → Procedure VmError (Caller σ) β} (ptr len : Int32)
    (memory : Memory) :
    detach (readMemory ptr len >>= f) memory =
      Procedure.lift (Prims.readMemory memory ptr len) >>= fun bytes =>
        detach (f bytes) memory := by
  rw [← detach_lift_bind]
  rfl

theorem detach_writeMemory_bind {f : Unit → Procedure VmError (Caller σ) β} (ptr : Int32)
    (bytes : Bytes) (memory : Memory) :
    detach (writeMemory ptr bytes >>= f) memory =
      Procedure.lift (Prims.writeMemory memory ptr bytes) >>= fun memory =>
        detach (f ()) memory := by
  funext vm
  rw [detach, Procedure.bind_run, writeMemory_run]
  cases Prims.writeMemory memory ptr bytes <;> rfl

end Caller

/-- The linked functions, as they act on their caller. -/
def hostFunction {σ : Type} (host : HostInterface σ) (params : Bytes) :
    HostCall → Procedure VmError (Caller σ) HostValue
  | .getBlockHeight => do
    let height ← Caller.onVm (Procedure.read fun vm => .ok (host.getBlockHeight vm))
    return .i64 height.toInt64
  | .getCallerLen => do
    let caller ← Caller.onVm (Procedure.read fun vm => .ok (host.getCaller vm))
    let len ← Procedure.lift (lengthI32 .caller caller)
    return .i32 len
  | .copyCaller outPtr => do
    let bytes ← Caller.onVm (Procedure.read fun vm => .ok (host.getCaller vm))
    Caller.writeMemory outPtr bytes
    let len ← Procedure.lift (lengthI32 .caller bytes)
    return .i32 len
  | .getParamsLen => do
    let len ← Procedure.lift (lengthI32 .params params)
    return .i32 len
  | .copyParams outPtr => do
    Caller.writeMemory outPtr params
    let len ← Procedure.lift (lengthI32 .params params)
    return .i32 len
  | .getBalance addressPtr addressLen => do
    let address ← Caller.readMemory addressPtr addressLen
    let balance ← Caller.onVm (host.getBalance address)
    Procedure.lift (ensure (balance.toNat < 2 ^ 63) .balanceExceedsI64)
    return .i64 balance.toInt64
  | .setStorage keyPtr keyLen valuePtr valueLen => do
    let key ← Caller.readMemory keyPtr keyLen
    let value ← Caller.readMemory valuePtr valueLen
    Caller.onVm (host.setStorage key value)
    return .unit
  | .getStorageLen keyPtr keyLen => do
    let key ← Caller.readMemory keyPtr keyLen
    match ← Caller.onVm (host.getStorage key) with
    | some value => do
      let len ← Procedure.lift (lengthI32 .storageValue value)
      return .i32 len
    | none => return .i32 (-1)
  | .copyStorage keyPtr keyLen outPtr => do
    let key ← Caller.readMemory keyPtr keyLen
    match ← Caller.onVm (host.getStorage key) with
    | some value => do
      let len ← Procedure.lift (lengthI32 .storageValue value)
      Caller.writeMemory outPtr value
      return .i32 len
    | none => return .i32 (-1)
  | .emitEvent namePtr nameLen dataPtr dataLen => do
    let name ← Caller.readMemory namePtr nameLen
    let data ← Caller.readMemory dataPtr dataLen
    Caller.onVm (host.emitEvent name data)
    return .unit
  | .transfer toPtr toLen amount => do
    Procedure.lift (ensure (0 ≤ amount) .negativeTransferAmount)
    let recipient ← Caller.readMemory toPtr toLen
    let _ ← Caller.onVm (host.transfer recipient amount.toUInt64 none)
    return .unit

/-- **The two accounts agree**: in place and with the memory passed on, the linked functions return
the same results and leave the same machine and the same memory. -/
theorem buildLinker_eq_detach {σ : Type} (host : HostInterface σ) (params : Bytes)
    (memory : Memory) (call : HostCall) :
    buildLinker host params (memory, call) =
      Caller.detach (hostFunction host params call) memory := by
  cases call with
  | getStorageLen keyPtr keyLen =>
    simp only [hostFunction, buildLinker, Caller.detach_readMemory_bind, Caller.detach_onVm_bind]
    refine bind_congr fun key => bind_congr fun found => ?_
    cases found with
    | none => rfl
    | some value => simp only [Caller.detach_lift_bind, Caller.detach_pure]
  | copyStorage keyPtr keyLen outPtr =>
    simp only [hostFunction, buildLinker, Caller.detach_readMemory_bind, Caller.detach_onVm_bind]
    refine bind_congr fun key => bind_congr fun found => ?_
    cases found with
    | none => rfl
    | some value =>
      simp only [Caller.detach_lift_bind, Caller.detach_writeMemory_bind, Caller.detach_pure]
  | _ =>
    simp only [hostFunction, buildLinker, Caller.detach_lift_bind, Caller.detach_onVm_bind,
      Caller.detach_readMemory_bind, Caller.detach_writeMemory_bind, Caller.detach_pure]

/-! ## Accesses -/

theorem zero_le_iff_toInt {x : Int32} : 0 ≤ x ↔ 0 ≤ x.toInt := by
  rw [Int32.le_iff_toInt_le, Int32.toInt_zero]

/-- A range, given by its pointer and its length, lies in the memory. -/
def InBounds (memory : Memory) (range : Int32 × Int32) : Prop :=
  ∃ data, memory = some data ∧ 0 ≤ range.1 ∧ 0 ≤ range.2 ∧
    range.1.toInt + range.2.toInt ≤ data.length

/-- **What a write does**: the bytes stand at the pointer, and all other bytes are as before. -/
structure WrittenAt (data data' : Bytes) (ptr : Int32) (bytes : Bytes) : Prop where
  nonneg : 0 ≤ ptr
  inBounds : ptr.toInt + bytes.length ≤ data.length
  length_eq : data'.length = data.length
  inside : ∀ i < bytes.length, data'[ptr.toInt.toNat + i]? = bytes[i]?
  outside : ∀ i : ℕ, (i : ℤ) < ptr.toInt ∨ ptr.toInt + bytes.length ≤ i → data'[i]? = data[i]?

theorem readMemory_eq_ok {memory : Memory} {ptr len : Int32} {bytes : Bytes} :
    readMemory memory ptr len = .ok bytes ↔
      ∃ data, memory = some data ∧ (0 ≤ ptr ∧ 0 ≤ len) ∧
        ptr.toInt + len.toInt ≤ data.length ∧
        bytes = (data.drop ptr.toInt.toNat).take len.toInt.toNat := by
  have hptr := ptr.toInt_lt
  have hlen := len.toInt_lt
  unfold readMemory
  rw [ensure_bind_eq_ok]
  dsimp only
  rw [ensure_bind_eq_ok, Except.bind_eq_ok]
  constructor
  · rintro ⟨hnonneg, -, data, hdata, hrest⟩
    rw [ensure_bind_eq_ok] at hrest
    obtain ⟨hstop, hbytes⟩ := hrest
    refine ⟨data, Option.okOr_eq_ok.mp hdata, hnonneg, by omega, ?_⟩
    rw [Nat.add_sub_cancel_left] at hbytes
    exact (Except.ok.inj hbytes).symm
  · rintro ⟨data, hdata, hnonneg, hstop, rfl⟩
    have hptr0 := zero_le_iff_toInt.mp hnonneg.1
    have hlen0 := zero_le_iff_toInt.mp hnonneg.2
    refine ⟨hnonneg, by omega, data, Option.okOr_eq_ok.mpr hdata, ?_⟩
    rw [ensure_bind_eq_ok, Nat.add_sub_cancel_left]
    exact ⟨by omega, rfl⟩

theorem writeMemory_eq_ok {memory memory' : Memory} {ptr : Int32} {bytes : Bytes} :
    writeMemory memory ptr bytes = .ok memory' ↔
      ∃ data, memory = some data ∧ 0 ≤ ptr ∧ ptr.toInt.toNat + bytes.length < 2 ^ 64 ∧
        ptr.toInt.toNat + bytes.length ≤ data.length ∧
        memory' = some (data.take ptr.toInt.toNat ++ bytes ++
          data.drop (ptr.toInt.toNat + bytes.length)) := by
  unfold writeMemory
  rw [ensure_bind_eq_ok]
  dsimp only
  rw [ensure_bind_eq_ok, Except.bind_eq_ok]
  constructor
  · rintro ⟨hnonneg, hsize, data, hdata, hrest⟩
    rw [ensure_bind_eq_ok] at hrest
    obtain ⟨hstop, hmemory⟩ := hrest
    exact ⟨data, Option.okOr_eq_ok.mp hdata, hnonneg, hsize, hstop, (Except.ok.inj hmemory).symm⟩
  · rintro ⟨data, hdata, hnonneg, hsize, hstop, rfl⟩
    refine ⟨hnonneg, hsize, data, Option.okOr_eq_ok.mpr hdata, ?_⟩
    exact ensure_bind_eq_ok.mpr ⟨hstop, rfl⟩

/-- A write that succeeds writes its bytes at the pointer, and nothing else. -/
theorem writtenAt_of_writeMemory {memory memory' : Memory} {ptr : Int32} {bytes : Bytes}
    (h : writeMemory memory ptr bytes = .ok memory') :
    ∃ data data', memory = some data ∧ memory' = some data' ∧ WrittenAt data data' ptr bytes := by
  obtain ⟨data, rfl, hnonneg, -, hstop, rfl⟩ := writeMemory_eq_ok.mp h
  have hptr := zero_le_iff_toInt.mp hnonneg
  have htake : (data.take ptr.toInt.toNat).length = ptr.toInt.toNat := by
    rw [List.length_take]
    omega
  refine ⟨data, _, rfl, rfl, hnonneg, by omega, ?_, fun i hi => ?_, fun i hi => ?_⟩
  · simp only [List.length_append, List.length_drop, htake]
    omega
  · rw [List.append_assoc, List.getElem?_append_right (by omega), htake, Nat.add_sub_cancel_left,
      List.getElem?_append_left hi]
  · rcases hi with hi | hi
    · rw [List.append_assoc, List.getElem?_append_left (by omega),
        List.getElem?_take_of_lt (by omega)]
    · rw [List.getElem?_append_right (by simp only [List.length_append, htake]; omega),
        List.getElem?_drop, List.length_append, htake]
      congr 1
      omega

theorem inBounds_of_readMemory {memory : Memory} {ptr len : Int32} {bytes : Bytes}
    (h : readMemory memory ptr len = .ok bytes) : InBounds memory (ptr, len) := by
  obtain ⟨data, hdata, hnonneg, hstop, -⟩ := readMemory_eq_ok.mp h
  exact ⟨data, hdata, hnonneg.1, hnonneg.2, hstop⟩

/-- **When a read succeeds**: when its range is non-negative and in bounds. -/
theorem readMemory_isOk_iff (memory : Memory) (ptr len : Int32) :
    (∃ bytes, readMemory memory ptr len = .ok bytes) ↔ InBounds memory (ptr, len) := by
  constructor
  · rintro ⟨bytes, hread⟩
    exact inBounds_of_readMemory hread
  · rintro ⟨data', hdata, hptr, hlen, hstop⟩
    exact ⟨_, readMemory_eq_ok.mpr ⟨data', hdata, ⟨hptr, hlen⟩, hstop, rfl⟩⟩

/-- **When a write succeeds**: when its range is non-negative and in bounds. -/
theorem writeMemory_isOk_iff (data : Fitting Bytes) (ptr : Int32) (bytes : Bytes) :
    (∃ memory, writeMemory (some data.val) ptr bytes = .ok memory) ↔
      0 ≤ ptr ∧ ptr.toInt + bytes.length ≤ data.val.length := by
  have hsize := data.property.1
  constructor
  · rintro ⟨memory, hwrite⟩
    obtain ⟨before, after, ⟨⟩, -, hwritten⟩ := writtenAt_of_writeMemory hwrite
    exact ⟨hwritten.nonneg, hwritten.inBounds⟩
  · rintro ⟨hnonneg, hstop⟩
    have hptr := zero_le_iff_toInt.mp hnonneg
    refine ⟨_, writeMemory_eq_ok.mpr ⟨data.val, rfl, hnonneg, ?_, ?_, rfl⟩⟩
    · omega
    · omega

/-! ## What a call reads -/

/-- The ranges that a call reads, by pointer and length. -/
def HostCall.reads : HostCall → List (Int32 × Int32)
  | .getBalance addressPtr addressLen => [(addressPtr, addressLen)]
  | .setStorage keyPtr keyLen valuePtr valueLen => [(keyPtr, keyLen), (valuePtr, valueLen)]
  | .getStorageLen keyPtr keyLen => [(keyPtr, keyLen)]
  | .copyStorage keyPtr keyLen _ => [(keyPtr, keyLen)]
  | .emitEvent namePtr nameLen dataPtr dataLen => [(namePtr, nameLen), (dataPtr, dataLen)]
  | .transfer toPtr toLen _ => [(toPtr, toLen)]
  | _ => []

/-- Memories of one size that have the same bytes in the given ranges. -/
structure AgreeOn (ranges : List (Int32 × Int32)) (data data' : Bytes) : Prop where
  length_eq : data.length = data'.length
  getElem?_eq : ∀ range ∈ ranges, ∀ i : ℕ, range.1.toInt ≤ i →
    (i : ℤ) < range.1.toInt + range.2.toInt → data[i]? = data'[i]?

section Reads

variable {ranges : List (Int32 × Int32)} {data data' : Bytes}

theorem AgreeOn.slice_eq (h : AgreeOn ranges data data') {ptr len : Int32}
    (hrange : (ptr, len) ∈ ranges) (hptr : 0 ≤ ptr) :
    (data.drop ptr.toInt.toNat).take len.toInt.toNat =
      (data'.drop ptr.toInt.toNat).take len.toInt.toNat := by
  have hptr' := zero_le_iff_toInt.mp hptr
  apply List.ext_getElem?
  intro i
  by_cases hi : i < len.toInt.toNat
  · rw [List.getElem?_take_of_lt hi, List.getElem?_take_of_lt hi, List.getElem?_drop,
      List.getElem?_drop]
    exact h.getElem?_eq _ hrange _ (by dsimp only; omega) (by dsimp only; omega)
  · rw [List.getElem?_take_eq_none (by omega), List.getElem?_take_eq_none (by omega)]

/-- Memories that agree go on to do so when the same bytes are written to both. -/
theorem AgreeOn.written (h : AgreeOn ranges data data') {after after' : Bytes} {ptr : Int32}
    {bytes : Bytes} (hwritten : WrittenAt data after ptr bytes)
    (hwritten' : WrittenAt data' after' ptr bytes) : AgreeOn ranges after after' := by
  have hptr := zero_le_iff_toInt.mp hwritten.nonneg
  refine ⟨by rw [hwritten.length_eq, hwritten'.length_eq, h.length_eq],
    fun range hrange i hfirst hlast => ?_⟩
  by_cases hi : (i : ℤ) < ptr.toInt ∨ ptr.toInt + bytes.length ≤ i
  · rw [hwritten.outside i hi, hwritten'.outside i hi]
    exact h.getElem?_eq range hrange i hfirst hlast
  · obtain ⟨k, rfl⟩ : ∃ k, i = ptr.toInt.toNat + k := ⟨i - ptr.toInt.toNat, by omega⟩
    rw [hwritten.inside k (by omega), hwritten'.inside k (by omega)]

/-- A write to memories that agree fails for both, or it leaves memories that agree. -/
theorem AgreeOn.writeMemory (h : AgreeOn ranges data data') (ptr : Int32) (bytes : Bytes) :
    (∃ e, Prims.writeMemory (some data) ptr bytes = .error e ∧
      Prims.writeMemory (some data') ptr bytes = .error e) ∨
    ∃ after after', Prims.writeMemory (some data) ptr bytes = .ok (some after) ∧
      Prims.writeMemory (some data') ptr bytes = .ok (some after') ∧
      AgreeOn ranges after after' := by
  have hchecks : (Prims.writeMemory (some data) ptr bytes).map (fun _ => ()) =
      (Prims.writeMemory (some data') ptr bytes).map fun _ => () := by
    simp only [Prims.writeMemory, Option.okOr, bind, Except.bind, h.length_eq, ensure]
    split_ifs <;> rfl
  cases hwrite : Prims.writeMemory (some data) ptr bytes with
  | error e =>
    cases hwrite' : Prims.writeMemory (some data') ptr bytes with
    | error e' =>
      rw [hwrite, hwrite'] at hchecks
      cases hchecks
      exact .inl ⟨e, rfl, rfl⟩
    | ok after' =>
      rw [hwrite, hwrite'] at hchecks
      cases hchecks
  | ok after =>
    cases hwrite' : Prims.writeMemory (some data') ptr bytes with
    | error e' =>
      rw [hwrite, hwrite'] at hchecks
      cases hchecks
    | ok after' =>
      obtain ⟨_, written, ⟨⟩, rfl, hwritten⟩ := writtenAt_of_writeMemory hwrite
      obtain ⟨_, written', ⟨⟩, rfl, hwritten'⟩ := writtenAt_of_writeMemory hwrite'
      exact .inr ⟨written, written', rfl, rfl, h.written hwritten hwritten'⟩

end Reads

/-! ## Simulation of the linked functions -/

section Simulation

variable {σ τ α : Type} {R : σ → τ → Prop} {M : Memory → Memory → Prop}
  {ranges : List (Int32 × Int32)}

/-- **Memories that cannot be told apart** by reads in the given ranges and by writes. -/
structure MemorySimulates (ranges : List (Int32 × Int32)) (M : Memory → Memory → Prop) : Prop where
  readMemory : ∀ memory memory', M memory memory' → ∀ ptr len, (ptr, len) ∈ ranges →
    Prims.readMemory memory ptr len = Prims.readMemory memory' ptr len
  writeMemory : ∀ memory memory', M memory memory' → ∀ ptr bytes,
    (∃ e, Prims.writeMemory memory ptr bytes = .error e ∧
      Prims.writeMemory memory' ptr bytes = .error e) ∨
    ∃ after after', Prims.writeMemory memory ptr bytes = .ok after ∧
      Prims.writeMemory memory' ptr bytes = .ok after' ∧ M after after'

theorem memorySimulates_eq (ranges : List (Int32 × Int32)) : MemorySimulates ranges Eq where
  readMemory := by
    rintro memory _ rfl ptr len -
    rfl
  writeMemory := by
    rintro memory _ rfl ptr bytes
    cases hwrite : Prims.writeMemory memory ptr bytes with
    | error e => exact .inl ⟨e, rfl, rfl⟩
    | ok after => exact .inr ⟨after, after, rfl, rfl, rfl⟩

theorem memorySimulates_agreeOn (ranges : List (Int32 × Int32)) :
    MemorySimulates ranges (Option.Rel (AgreeOn ranges)) where
  readMemory := by
    intro memory memory' h ptr len hrange
    cases h with
    | none => rfl
    | some h =>
      unfold Prims.readMemory
      by_cases hnonneg : 0 ≤ ptr ∧ 0 ≤ len
      · simp only [Option.okOr, bind, Except.bind, Nat.add_sub_cancel_left, h.length_eq,
          h.slice_eq hrange hnonneg.1]
      · rw [ensure, if_neg hnonneg]
        rfl
  writeMemory := by
    intro memory memory' h ptr bytes
    cases h with
    | none =>
      cases hwrite : Prims.writeMemory none ptr bytes with
      | error e => exact .inl ⟨e, rfl, rfl⟩
      | ok after => exact .inr ⟨after, after, rfl, rfl, by
          obtain ⟨data, hdata, -⟩ := writeMemory_eq_ok.mp hwrite
          cases hdata⟩
    | some h =>
      rcases h.writeMemory ptr bytes with herror | ⟨after, after', hok, hok', hafter⟩
      · exact .inl herror
      · exact .inr ⟨after, after', hok, hok', .some hafter⟩

/-- Callers with related machines and related memories. -/
def Related (R : σ → τ → Prop) (M : Memory → Memory → Prop) (caller : Caller σ)
    (caller' : Caller τ) : Prop :=
  R caller.vm caller'.vm ∧ M caller.memory caller'.memory

theorem simulates_readMemory (hM : MemorySimulates ranges M) {ptr len : Int32}
    (hrange : (ptr, len) ∈ ranges) :
    Simulates (Related R M) (Caller.readMemory ptr len) (Caller.readMemory ptr len) :=
  simulates_read fun _ _ h => hM.readMemory _ _ h.2 ptr len hrange

theorem simulates_writeMemory (hM : MemorySimulates ranges M) (ptr : Int32) (bytes : Bytes) :
    Simulates (Related R M) (Caller.writeMemory ptr bytes) (Caller.writeMemory ptr bytes) := by
  rintro ⟨vm, memory⟩ ⟨vm', memory'⟩ ⟨hvm, hmemory⟩
  rw [Caller.writeMemory_run, Caller.writeMemory_run]
  rcases hM.writeMemory memory memory' hmemory ptr bytes with
    ⟨e, he, he'⟩ | ⟨after, after', hok, hok', hafter⟩
  · rw [he, he']
    exact ⟨rfl, hvm, hmemory⟩
  · rw [hok, hok']
    exact ⟨rfl, hvm, hafter⟩

theorem simulates_onVm {m : Procedure VmError σ α} {n : Procedure VmError τ α}
    (h : Simulates R m n) : Simulates (Related R M) (Caller.onVm m) (Caller.onVm n) := by
  rintro ⟨vm, memory⟩ ⟨vm', memory'⟩ ⟨hvm, hmemory⟩
  obtain ⟨hresult, hafter⟩ := h vm vm' hvm
  exact ⟨hresult, hafter, hmemory⟩

theorem simulates_detach {m : Procedure VmError (Caller σ) α} {n : Procedure VmError (Caller τ) α}
    (h : Simulates (Related R Eq) m n) (memory : Memory) :
    Simulates R (Caller.detach m memory) (Caller.detach n memory) := by
  intro vm vm' hvm
  obtain ⟨hresult, hafter, hmemory⟩ := h ⟨vm, memory⟩ ⟨vm', memory⟩ ⟨hvm, rfl⟩
  rw [Caller.detach_run, Caller.detach_run]
  rcases hm : m.run ⟨vm, memory⟩ with ⟨result, caller⟩
  rcases hn : n.run ⟨vm', memory⟩ with ⟨result', caller'⟩
  rw [hm, hn] at hresult hafter hmemory
  dsimp only at hresult hafter hmemory
  subst hresult
  cases result with
  | error e => exact ⟨rfl, hafter⟩
  | ok a => exact ⟨congrArg (fun memory => Except.ok (a, memory)) hmemory, hafter⟩

/-- **The linked functions simulate one another** when the operations of their machines do and no
read of the call tells the memories apart. -/
theorem simulates_hostFunction {host : HostInterface σ} {host' : HostInterface τ}
    (h : HostSimulates R host host') (params : Bytes) (call : HostCall)
    (hM : MemorySimulates call.reads M) :
    Simulates (Related R M) (hostFunction host params call) (hostFunction host' params call) := by
  have hcaller : Simulates R
      (Procedure.read fun s => .ok (host.getCaller s) : Procedure VmError σ Bytes)
      (Procedure.read fun t => .ok (host'.getCaller t)) :=
    simulates_read fun s t hr => congrArg Except.ok (h.getCaller s t hr)
  -- an access goes through the simulation of the memories, and an operation of the machine through
  -- its own
  cases call with
  | getBlockHeight =>
    refine (simulates_onVm (simulates_read fun s t hr => ?_)).bind fun height => simulates_pure _
    rw [h.getBlockHeight s t hr]
  | getCallerLen =>
    refine (simulates_onVm hcaller).bind fun caller => ?_
    exact (simulates_lift _).bind fun len => simulates_pure _
  | copyCaller outPtr =>
    refine (simulates_onVm hcaller).bind fun bytes => ?_
    refine (simulates_writeMemory hM outPtr bytes).bind fun _ => ?_
    exact (simulates_lift _).bind fun len => simulates_pure _
  | getParamsLen => exact (simulates_lift _).bind fun len => simulates_pure _
  | copyParams outPtr =>
    refine (simulates_writeMemory hM outPtr params).bind fun _ => ?_
    exact (simulates_lift _).bind fun len => simulates_pure _
  | getBalance addressPtr addressLen =>
    refine (simulates_readMemory hM (by simp [HostCall.reads])).bind fun address => ?_
    refine (simulates_onVm (h.getBalance address)).bind fun balance => ?_
    exact (simulates_lift _).bind fun _ => simulates_pure _
  | setStorage keyPtr keyLen valuePtr valueLen =>
    refine (simulates_readMemory hM (by simp [HostCall.reads])).bind fun key => ?_
    refine (simulates_readMemory hM (by simp [HostCall.reads])).bind fun value => ?_
    exact (simulates_onVm (h.setStorage key value)).bind fun _ => simulates_pure _
  | getStorageLen keyPtr keyLen =>
    refine (simulates_readMemory hM (by simp [HostCall.reads])).bind fun key => ?_
    refine (simulates_onVm (h.getStorage key)).bind fun found => ?_
    cases found with
    | none => exact simulates_pure _
    | some value => exact (simulates_lift _).bind fun len => simulates_pure _
  | copyStorage keyPtr keyLen outPtr =>
    refine (simulates_readMemory hM (by simp [HostCall.reads])).bind fun key => ?_
    refine (simulates_onVm (h.getStorage key)).bind fun found => ?_
    cases found with
    | none => exact simulates_pure _
    | some value =>
      refine (simulates_lift _).bind fun len => ?_
      exact (simulates_writeMemory hM outPtr value).bind fun _ => simulates_pure _
  | emitEvent namePtr nameLen dataPtr dataLen =>
    refine (simulates_readMemory hM (by simp [HostCall.reads])).bind fun name => ?_
    refine (simulates_readMemory hM (by simp [HostCall.reads])).bind fun data => ?_
    exact (simulates_onVm (h.emitEvent name data)).bind fun _ => simulates_pure _
  | transfer toPtr toLen amount =>
    refine (simulates_lift _).bind fun _ => ?_
    refine (simulates_readMemory hM (by simp [HostCall.reads])).bind fun recipient => ?_
    refine (simulates_onVm (h.transfer recipient amount.toUInt64 none)).bind fun _ => ?_
    exact simulates_pure _

/-- **Machines whose operations simulate one another** give linked functions that do. -/
theorem simulates_buildLinker {host : HostInterface σ} {host' : HostInterface τ}
    (h : HostSimulates R host host') (params : Bytes) (query : Memory × HostCall) :
    Simulates R (buildLinker host params query) (buildLinker host' params query) := by
  obtain ⟨memory, call⟩ := query
  rw [buildLinker_eq_detach, buildLinker_eq_detach]
  exact simulates_detach (simulates_hostFunction h params call (memorySimulates_eq _)) memory

/-- A machine simulates itself. -/
theorem hostSimulates_refl (host : HostInterface σ) : HostSimulates Eq host host where
  getCaller s t h := congrArg _ h
  getBlockHeight s t h := congrArg _ h
  getBalance address := by rintro s _ rfl; exact ⟨rfl, rfl⟩
  transfer recipient amount data := by rintro s _ rfl; exact ⟨rfl, rfl⟩
  setStorage key value := by rintro s _ rfl; exact ⟨rfl, rfl⟩
  getStorage key := by rintro s _ rfl; exact ⟨rfl, rfl⟩
  emitEvent name data := by rintro s _ rfl; exact ⟨rfl, rfl⟩

end Simulation

/-! ## What a call does -/

/-- Bytes are copied to a pointer, and their number is returned. -/
def CopiedOut (before after : Memory) (outPtr : Int32) (bytes : Bytes) (value : HostValue) : Prop :=
  ∃ data data' n, before = some data ∧ after = some data' ∧ WrittenAt data data' outPtr bytes ∧
    value = .i32 n ∧ n.toInt = bytes.length

/-- **What a call that succeeds does to the memory**: three functions copy bytes out, and of a slot
that is not set nothing is copied. -/
def HostCall.MemoryEffect (storage : Db) (params : Bytes) (vm : WasmVM) (value : HostValue)
    (before after : Memory) : HostCall → Prop
  | .copyCaller outPtr => CopiedOut before after outPtr vm.context.caller value
  | .copyParams outPtr => CopiedOut before after outPtr params value
  | .copyStorage keyPtr keyLen outPtr => ∃ key, readMemory before keyPtr keyLen = .ok key ∧
      ((vm.getStorage storage key = .ok none ∧ value = .i32 (-1) ∧ after = before) ∨
        ∃ bytes, vm.getStorage storage key = .ok (some bytes) ∧
          CopiedOut before after outPtr bytes value)
  | _ => after = before

theorem toInt_of_lengthI32 {kind : LengthKind} {bytes : Bytes} {n : Int32}
    (h : lengthI32 kind bytes = .ok n) : n.toInt = bytes.length := by
  unfold lengthI32 at h
  rw [ensure_bind_eq_ok] at h
  obtain ⟨hlt, ⟨⟩⟩ := h
  exact Int32.toInt_ofNat_of_lt hlt

theorem lengthI32_of_lt {kind : LengthKind} {bytes : Bytes} (h : bytes.length < 2 ^ 31) :
    lengthI32 kind bytes = .ok (Int32.ofNat bytes.length) := by
  unfold lengthI32
  exact ensure_bind_eq_ok.mpr ⟨h, rfl⟩

theorem copiedOut_of_writeMemory {memory memory' : Memory} {outPtr n : Int32} {bytes : Bytes}
    (hwrite : writeMemory memory outPtr bytes = .ok memory') (hn : n.toInt = bytes.length) :
    CopiedOut memory memory' outPtr bytes (.i32 n) := by
  obtain ⟨data, data', hdata, hdata', hwritten⟩ := writtenAt_of_writeMemory hwrite
  exact ⟨data, data', n, hdata, hdata', hwritten, rfl, hn⟩

/-! ### Operations that fail leave the machine as it was -/

/-- The operation leaves the machine as it was when it fails. -/
def FailsClean {σ α : Type} (m : Procedure VmError σ α) (vm : σ) : Prop :=
  m.Ends vm (fun _ _ => True) fun _ vm' => vm' = vm

section Operations

variable (storage : Db) (vm : WasmVM)

theorem failsClean_setStorage (key value : Bytes) :
    FailsClean (WasmVM.setStorage storage key value) vm := by
  rw [FailsClean, Procedure.Ends, WasmVM.setStorage_run]
  cases vm.requireContractAccount storage .storageAccess with
  | ok _ => trivial
  | error e => rfl

theorem failsClean_transfer (recipient : Bytes) (amount : UInt64) (data : Option Bytes) :
    FailsClean (WasmVM.transfer storage recipient amount data) vm := by
  rw [FailsClean, Procedure.Ends, WasmVM.transfer_run]
  cases vm.transferTransaction storage recipient amount data with
  | ok _ => trivial
  | error e => rfl

theorem failsClean_emitEvent (name data : Bytes) :
    FailsClean (WasmVM.emitEvent name data) vm := by
  rw [FailsClean, Procedure.Ends, WasmVM.emitEvent_run]
  cases (do
    let _ ← vm.requireContractAddress .emitEvent
    ensure (name ≠ []) .emptyEventName : Except VmError Unit) with
  | ok _ => trivial
  | error e => rfl

end Operations

/-! ### Steps on a caller -/

section Steps

variable {σ α β : Type} {caller : Caller σ} {returns : β → Caller σ → Prop}

theorem ends_readMemory_bind {f : Bytes → Procedure VmError (Caller σ) β} {ptr len : Int32}
    (hrest : ∀ bytes, readMemory caller.memory ptr len = .ok bytes →
      (f bytes).Ends caller returns fun _ after => after = caller) :
    (Caller.readMemory ptr len >>= f).Ends caller returns fun _ after => after = caller :=
  Procedure.Ends.read_bind (fun _ _ => rfl) hrest

theorem ends_writeMemory_bind {f : Unit → Procedure VmError (Caller σ) β} {ptr : Int32}
    {bytes : Bytes}
    (hrest : ∀ memory, writeMemory caller.memory ptr bytes = .ok memory →
      (f ()).Ends { caller with memory } returns fun _ after => after = caller) :
    (Caller.writeMemory ptr bytes >>= f).Ends caller returns fun _ after => after = caller := by
  apply Procedure.Ends.bind
  rw [Procedure.Ends, Caller.writeMemory_run]
  cases hwrite : writeMemory caller.memory ptr bytes with
  | ok memory => exact hrest memory hwrite
  | error e => rfl

theorem ends_onVm_bind {f : α → Procedure VmError (Caller σ) β} {m : Procedure VmError σ α}
    (hm : FailsClean m caller.vm)
    (hrest : ∀ a vm, (f a).Ends { caller with vm } returns fun _ after => after = caller) :
    (Caller.onVm m >>= f).Ends caller returns fun _ after => after = caller := by
  apply Procedure.Ends.bind
  apply Procedure.Ends.zoom
  refine hm.mono (fun a vm _ => hrest a vm) fun e vm hvm => ?_
  rw [hvm]

/-- An operation that only reads the machine. -/
theorem ends_onVm_read_bind {f : α → Procedure VmError (Caller σ) β} {g : σ → Except VmError α}
    (hrest : ∀ a, g caller.vm = .ok a →
      (f a).Ends caller returns fun _ after => after = caller) :
    (Caller.onVm (Procedure.read g) >>= f).Ends caller returns fun _ after => after = caller := by
  apply Procedure.Ends.bind
  apply Procedure.Ends.zoom
  rw [Procedure.Ends, Procedure.read_run]
  cases hread : g caller.vm with
  | ok a => exact hrest a hread
  | error e => rfl

/-- Bytes are copied out and their length is checked afterwards: the check does not fail on a length
below `2 ^ 31`, so that no copy is left behind by a failure. -/
theorem ends_copyOut {returns : HostValue → Caller σ → Prop} {kind : LengthKind} {outPtr : Int32}
    {bytes : Bytes} (hlength : bytes.length < 2 ^ 31)
    (hreturns : ∀ value memory, CopiedOut caller.memory memory outPtr bytes value →
      returns value { caller with memory }) :
    (do
      Caller.writeMemory outPtr bytes
      let len ← Procedure.lift (lengthI32 kind bytes)
      return .i32 len : Procedure VmError (Caller σ) HostValue).Ends caller returns
        fun _ after => after = caller := by
  refine ends_writeMemory_bind fun memory hwrite => ?_
  refine .lift_bind (fun e he => ?_) fun len hlen => ?_
  · cases he.symm.trans (lengthI32_of_lt hlength)
  · exact .pure (hreturns _ memory (copiedOut_of_writeMemory hwrite (toInt_of_lengthI32 hlen)))

end Steps

/-! ## Memory safety -/

section Safety

theorem forall_mem_pair {α : Type} {p : α → Prop} {a b : α} (ha : p a) (hb : p b) :
    ∀ x ∈ [a, b], p x :=
  List.forall_mem_cons.mpr ⟨ha, List.forall_mem_singleton.mpr hb⟩

variable {storage : Db} {params : Bytes} {caller : Caller WasmVM}

/-- A call that succeeds has read inside the memory and has had its effect on it; one that fails has
left everything as it was. -/
theorem hostFunction_ends (hcaller : caller.vm.context.caller.length < 2 ^ 31)
    (hparams : params.length < 2 ^ 31) (call : HostCall) :
    (hostFunction (WasmVM.host storage) params call).Ends caller
      (fun value after => (∀ range ∈ call.reads, InBounds caller.memory range) ∧
        call.MemoryEffect storage params caller.vm value caller.memory after.memory)
      fun _ after => after = caller := by
  cases call with
  | getBlockHeight =>
    refine ends_onVm_read_bind fun height _ => ?_
    exact .pure ⟨List.forall_mem_nil _, rfl⟩
  | getCallerLen =>
    refine ends_onVm_read_bind fun bytes _ => ?_
    refine .lift_bind (fun _ _ => rfl) fun len _ => ?_
    exact .pure ⟨List.forall_mem_nil _, rfl⟩
  | copyCaller outPtr =>
    refine ends_onVm_read_bind fun bytes hbytes => ?_
    cases hbytes
    exact ends_copyOut hcaller fun value memory hcopied => ⟨List.forall_mem_nil _, hcopied⟩
  | getParamsLen =>
    refine .lift_bind (fun _ _ => rfl) fun len _ => ?_
    exact .pure ⟨List.forall_mem_nil _, rfl⟩
  | copyParams outPtr =>
    exact ends_copyOut hparams fun value memory hcopied => ⟨List.forall_mem_nil _, hcopied⟩
  | getBalance addressPtr addressLen =>
    refine ends_readMemory_bind fun address haddress => ?_
    refine ends_onVm_read_bind fun balance _ => ?_
    refine .lift_bind (fun _ _ => rfl) fun _ _ => ?_
    exact .pure ⟨List.forall_mem_singleton.mpr (inBounds_of_readMemory haddress), rfl⟩
  | setStorage keyPtr keyLen valuePtr valueLen =>
    refine ends_readMemory_bind fun key hkey => ?_
    refine ends_readMemory_bind fun value hvalue => ?_
    refine ends_onVm_bind (failsClean_setStorage storage caller.vm key value) fun _ vm => ?_
    exact .pure ⟨forall_mem_pair (inBounds_of_readMemory hkey) (inBounds_of_readMemory hvalue), rfl⟩
  | getStorageLen keyPtr keyLen =>
    refine ends_readMemory_bind fun key hkey => ?_
    have hrange := List.forall_mem_singleton.mpr (inBounds_of_readMemory hkey)
    refine ends_onVm_read_bind fun found _ => ?_
    cases found with
    | none => exact .pure ⟨hrange, rfl⟩
    | some value =>
      refine .lift_bind (fun _ _ => rfl) fun len _ => ?_
      exact .pure ⟨hrange, rfl⟩
  | copyStorage keyPtr keyLen outPtr =>
    refine ends_readMemory_bind fun key hkey => ?_
    have hrange := List.forall_mem_singleton.mpr (inBounds_of_readMemory hkey)
    refine ends_onVm_read_bind fun found hfound => ?_
    cases found with
    | none => exact .pure ⟨hrange, key, hkey, .inl ⟨hfound, rfl, rfl⟩⟩
    | some value =>
      refine .lift_bind (fun _ _ => rfl) fun len hlen => ?_
      refine ends_writeMemory_bind fun memory hwrite => ?_
      have hcopied := copiedOut_of_writeMemory hwrite (toInt_of_lengthI32 hlen)
      exact .pure ⟨hrange, key, hkey, .inr ⟨value, hfound, hcopied⟩⟩
  | emitEvent namePtr nameLen dataPtr dataLen =>
    refine ends_readMemory_bind fun name hname => ?_
    refine ends_readMemory_bind fun data hdata => ?_
    refine ends_onVm_bind (failsClean_emitEvent caller.vm name data) fun _ vm => ?_
    exact .pure ⟨forall_mem_pair (inBounds_of_readMemory hname) (inBounds_of_readMemory hdata), rfl⟩
  | transfer toPtr toLen amount =>
    refine .lift_bind (fun _ _ => rfl) fun _ _ => ?_
    refine ends_readMemory_bind fun recipient hrecipient => ?_
    refine ends_onVm_bind (failsClean_transfer storage caller.vm recipient _ none) fun _ vm => ?_
    exact .pure ⟨List.forall_mem_singleton.mpr (inBounds_of_readMemory hrecipient), rfl⟩

/-- **Host functions respect the memory of the contract**. A call that fails leaves the memory and
the machine as they were. A call that succeeds has read ranges inside the memory only, and it has
written nothing but the bytes that `copy_caller`, `copy_params` and `copy_storage` copy out, as many
as it returns. What a call returns and what it does to the machine depends on no byte outside the
ranges it reads. An access succeeds exactly when its range is non-negative and in bounds. -/
theorem host_functions_respect_memory (storage : Db) (params : Bytes) (caller : Caller WasmVM)
    (hcaller : caller.vm.context.caller.length < 2 ^ 31) (hparams : params.length < 2 ^ 31) :
    (∀ call, (hostFunction (WasmVM.host storage) params call).Ends caller
      (fun value after => (∀ range ∈ call.reads, InBounds caller.memory range) ∧
        call.MemoryEffect storage params caller.vm value caller.memory after.memory)
      fun _ after => after = caller) ∧
    (∀ call memory, Option.Rel (AgreeOn call.reads) caller.memory memory →
      let run := (hostFunction (WasmVM.host storage) params call).run caller
      let run' := (hostFunction (WasmVM.host storage) params call).run { caller with memory }
      run.1 = run'.1 ∧ run.2.vm = run'.2.vm) ∧
    (∀ memory ptr len, (∃ bytes, readMemory memory ptr len = .ok bytes) ↔
      InBounds memory (ptr, len)) ∧
    ∀ (data : Fitting Bytes) (ptr : Int32) (bytes : Bytes),
      (∃ memory, writeMemory (some data.val) ptr bytes = .ok memory) ↔
        0 ≤ ptr ∧ ptr.toInt + bytes.length ≤ data.val.length := by
  refine ⟨hostFunction_ends hcaller hparams, fun call memory hagree => ?_, readMemory_isOk_iff,
    writeMemory_isOk_iff⟩
  obtain ⟨hresult, hvm, -⟩ := simulates_hostFunction (hostSimulates_refl (WasmVM.host storage))
    params call (memorySimulates_agreeOn _) caller { caller with memory } ⟨rfl, hagree⟩
  exact ⟨hresult, hvm⟩

/-- A contract with four bytes of memory. -/
def sampleCaller : Caller WasmVM where
  vm := { context := { caller := [7, 8] } }
  memory := some [0, 0, 0, 0]

/-- The caller's address fits at the end of the memory, and not one byte further. -/
theorem sampleCaller_respected :
    (hostFunction (WasmVM.host {}) [] (.copyCaller 2)).run sampleCaller =
      (.ok (.i32 2), { sampleCaller with memory := some [0, 0, 7, 8] }) ∧
    (hostFunction (WasmVM.host {}) [] (.copyCaller 3)).run sampleCaller =
      (.error .memoryWriteOutOfBounds, sampleCaller) ∧
    ∀ call, (hostFunction (WasmVM.host {}) [] call).Ends sampleCaller
      (fun value after => (∀ range ∈ call.reads, InBounds sampleCaller.memory range) ∧
        call.MemoryEffect {} [] sampleCaller.vm value sampleCaller.memory after.memory)
      fun _ after => after = sampleCaller :=
  ⟨rfl, rfl, (host_functions_respect_memory {} [] sampleCaller (by decide) (by decide)).1⟩

end Safety

end Prims
