import Prims.Blockchain.Validation
import Prims.Vm.Host

/-!
# Transfers queued by a contract

`WasmVM::transfer` checks every transfer against the account in the store, and queues a transaction
with the nonce after the stored one. It looks neither at the transfers that are queued already nor
at whether the amount is positive. When the transfers are executed one after the other, the first
one uses up the nonce that all of them have, and a transfer of nothing is never valid.

## Main definitions

* `TransferCall`, `TransferCall.Accepted`: a call, and the checks it passes
* `JointlyExecutable`: every transfer of a list is valid at its turn

## Main results

* `pendingTransfers_transfers`: the queue has the accepted calls
* `jointly_executable_iff`: the queue can be executed if and only if at most one call is accepted
  and it moves something
-/

namespace Prims

open Bincode

/-- The arguments of `WasmVM::transfer`. -/
structure TransferCall where
  recipient : Bytes
  amount : UInt64
  data : Option Bytes := none
  deriving DecidableEq, Repr

/-- A run of calls on one machine, with a store that does not change. -/
def WasmVM.transfers (vm : WasmVM) (storage : Db) (calls : List TransferCall) : WasmVM :=
  calls.foldl (fun vm call =>
    ((WasmVM.transfer storage call.recipient call.amount call.data).run vm).2) vm

/-- Pay a transfer from an account and use up its nonce. -/
def Account.pay (account : Account) (transaction : Transaction) : Account :=
  { account with
    balance := account.balance - (transaction.amount + transaction.fee)
    nonce := transaction.nonce }

/-- Every transfer of a list is valid when those before it were paid. -/
def JointlyExecutable : Account → List Transaction → Prop
  | _, [] => True
  | account, transaction :: transactions =>
    validateTransactionNonce transaction (some account) = .ok () ∧
      validateTransactionBalance transaction (some account) = .ok () ∧
      JointlyExecutable (account.pay transaction) transactions

/-- The checks of a call against the account of the contract. -/
def TransferCall.Accepted (context : WasmExecutionContext) (account : Account)
    (call : TransferCall) : Prop :=
  context.contractAddress ≠ [] ∧ call.recipient ≠ [] ∧ account.codeHash.isSome ∧
    call.amount.toNat + fixedTransactionFee.toNat ≤ account.balance.toNat ∧
    account.nonce.toNat + 1 < 2 ^ 64

instance (context : WasmExecutionContext) (account : Account) (call : TransferCall) :
    Decidable (call.Accepted context account) := inferInstanceAs (Decidable (_ ∧ _))

/-- The transaction that an accepted call queues. -/
def TransferCall.transaction (context : WasmExecutionContext) (account : Account)
    (call : TransferCall) : Transaction where
  txType := .transfer
  sender := context.contractAddress
  recipient := call.recipient
  amount := call.amount
  fee := fixedTransactionFee
  nonce := account.nonce + 1
  sourceShard := context.shardId
  destinationShard := context.shardId
  signature := []
  data := call.data

section Transfers

variable {storage : Db} {account : Account} {vm : WasmVM}

theorem requireContractAddress_eq_ok {operation : VmOperation} {address : Bytes} :
    vm.requireContractAddress operation = .ok address ↔
      vm.context.contractAddress ≠ [] ∧ address = vm.context.contractAddress := by
  rw [WasmVM.requireContractAddress, ensure_bind_eq_ok]
  exact and_congr_right fun _ => ⟨fun h => (Except.ok.inj h).symm, fun h => congrArg _ h.symm⟩

theorem requireContractAccount_eq_ok
    (haccount : getAccount storage vm.context.contractAddress = .ok (some account))
    {operation : VmOperation} {sender : Account} :
    vm.requireContractAccount storage operation = .ok sender ↔
      vm.context.contractAddress ≠ [] ∧ account.codeHash.isSome ∧ sender = account := by
  rw [WasmVM.requireContractAccount, Except.bind_eq_ok]
  constructor
  · rintro ⟨address, haddress, h⟩
    obtain ⟨hne, rfl⟩ := requireContractAddress_eq_ok.mp haddress
    rw [haccount] at h
    obtain ⟨hcode, hsender⟩ := ensure_bind_eq_ok.mp h
    exact ⟨hne, hcode, (Except.ok.inj hsender).symm⟩
  · rintro ⟨hne, hcode, rfl⟩
    refine ⟨_, requireContractAddress_eq_ok.mpr ⟨hne, rfl⟩, ?_⟩
    rw [haccount]
    exact ensure_bind_eq_ok.mpr ⟨hcode, rfl⟩

/-- What an accepted call pays does not overflow, and the account has it. -/
theorem TransferCall.Accepted.required {context : WasmExecutionContext} {call : TransferCall}
    (h : call.Accepted context account) :
    call.amount.checkedAdd fixedTransactionFee = some (call.amount + fixedTransactionFee) ∧
      call.amount + fixedTransactionFee ≤ account.balance := by
  obtain ⟨-, -, -, hle, -⟩ := h
  have hlt := hle.trans_lt account.balance.toNat_lt
  refine ⟨if_pos hlt, ?_⟩
  rw [UInt64.le_iff_toNat_le, UInt64.toNat_add, Nat.mod_eq_of_lt hlt]
  exact hle

/-- **A call is accepted by its checks**, whatever is queued already. -/
theorem transferTransaction_eq_ok
    (haccount : getAccount storage vm.context.contractAddress = .ok (some account))
    {call : TransferCall} {transaction : Transaction} :
    vm.transferTransaction storage call.recipient call.amount call.data = .ok transaction ↔
      call.Accepted vm.context account ∧ transaction = call.transaction vm.context account := by
  rw [WasmVM.transferTransaction, Except.bind_eq_ok]
  constructor
  · rintro ⟨address, haddress, h⟩
    obtain ⟨hne, -⟩ := requireContractAddress_eq_ok.mp haddress
    rw [ensure_bind_eq_ok] at h
    obtain ⟨hrecipient, h⟩ := h
    rw [Except.bind_eq_ok] at h
    obtain ⟨sender, hsender, h⟩ := h
    obtain ⟨-, hcode, rfl⟩ := (requireContractAccount_eq_ok haccount).mp hsender
    rw [Except.bind_eq_ok] at h
    obtain ⟨required, hrequired, h⟩ := h
    rw [ensure_bind_eq_ok] at h
    obtain ⟨hle, h⟩ := h
    rw [Except.bind_eq_ok] at h
    obtain ⟨nextNonce, hnonce, h⟩ := h
    rw [Option.okOr_eq_ok, UInt64.checkedAdd_eq_some] at hrequired hnonce
    rw [UInt64.le_iff_toNat_le, hrequired] at hle
    have hnext : nextNonce = sender.nonce + 1 := by
      apply UInt64.toNat_inj.mp
      rw [hnonce, UInt64.toNat_add, Nat.mod_eq_of_lt]
      exact hnonce ▸ nextNonce.toNat_lt
    refine ⟨⟨hne, hrecipient, hcode, hle, hnonce ▸ nextNonce.toNat_lt⟩, ?_⟩
    rw [← Except.ok.inj h, hnext]
    rfl
  · rintro ⟨haccepted, rfl⟩
    obtain ⟨hrequired, hle⟩ := haccepted.required
    obtain ⟨hne, hrecipient, hcode, -, hnonce⟩ := haccepted
    refine ⟨_, requireContractAddress_eq_ok.mpr ⟨hne, rfl⟩, ?_⟩
    rw [ensure_bind_eq_ok]
    refine ⟨hrecipient, ?_⟩
    rw [Except.bind_eq_ok]
    refine ⟨account, (requireContractAccount_eq_ok haccount).mpr ⟨hne, hcode, rfl⟩, ?_⟩
    have hnext : account.nonce.checkedAdd 1 = some (account.nonce + 1) := if_pos hnonce
    rw [hrequired, hnext]
    exact ensure_bind_eq_ok.mpr ⟨hle, rfl⟩

variable (vm) in
/-- The queue after a run: the transactions of the accepted calls, in order. -/
theorem pendingTransfers_transfers
    (haccount : getAccount storage vm.context.contractAddress = .ok (some account))
    (calls : List TransferCall) :
    (vm.transfers storage calls).pendingTransfers = vm.pendingTransfers ++
      (calls.filter fun call => call.Accepted vm.context account).map
        (TransferCall.transaction vm.context account) := by
  induction calls generalizing vm with
  | nil => exact (List.append_nil _).symm
  | cons call calls ih =>
    rw [WasmVM.transfers, List.foldl_cons, WasmVM.transfer_run]
    by_cases haccepted : call.Accepted vm.context account
    · rw [(transferTransaction_eq_ok haccount).mpr ⟨haccepted, rfl⟩,
        List.filter_cons_of_pos (by simpa using haccepted), List.map_cons]
      have hrest := ih { vm with
        pendingTransfers := vm.pendingTransfers ++ [call.transaction vm.context account] } haccount
      rw [List.append_assoc] at hrest
      exact hrest
    · rw [List.filter_cons_of_neg (by simpa using haccepted)]
      cases hresult : vm.transferTransaction storage call.recipient call.amount call.data with
      | ok transaction => exact absurd ((transferTransaction_eq_ok haccount).mp hresult).1 haccepted
      | error e => exact ih vm haccount

/-- A queued transfer is valid at its turn when the account has the nonce it was queued with, and
its amount is not zero. -/
theorem validate_transaction {context : WasmExecutionContext} {call : TransferCall}
    (haccepted : call.Accepted context account) :
    validateTransactionNonce (call.transaction context account) (some account) = .ok () ∧
      (validateTransactionBalance (call.transaction context account) (some account) = .ok () ↔
        call.amount ≠ 0) := by
  obtain ⟨hrequired, hle⟩ := haccepted.required
  obtain ⟨-, -, -, -, hnonce⟩ := haccepted
  constructor
  · rw [validateTransactionNonce, ensure_eq_ok]
    show account.nonce < account.nonce + 1
    have hone : (1 : UInt64).toNat = 1 := rfl
    rw [UInt64.lt_iff_toNat_lt, UInt64.toNat_add, hone, Nat.mod_eq_of_lt hnonce]
    exact Nat.lt_succ_self _
  · rw [validateTransactionBalance, ensure_bind_eq_ok, ensure_bind_eq_ok]
    constructor
    · exact fun h => h.1
    · intro hamount
      refine ⟨hamount, rfl, ?_⟩
      -- the sum was checked when the call was accepted
      split
      · next hnone => exact nomatch hrequired.symm.trans hnone
      · next required hsome =>
        cases hrequired.symm.trans hsome
        exact ensure_eq_ok.mpr hle

/-- After one queued transfer, another one has a nonce that is used up. -/
theorem not_jointlyExecutable_two {context : WasmExecutionContext} (first second : TransferCall)
    (transactions : List Transaction) :
    ¬ JointlyExecutable account (first.transaction context account ::
      second.transaction context account :: transactions) := by
  rintro ⟨-, -, hnonce, -⟩
  rw [validateTransactionNonce, ensure_eq_ok] at hnonce
  exact UInt64.lt_irrefl (account.nonce + 1) hnonce

/-- **The queue of a run can be executed** if and only if at most one of the calls is accepted, and
its amount is not zero. -/
theorem jointly_executable_iff (storage : Db) (context : WasmExecutionContext) (account : Account)
    (haccount : getAccount storage context.contractAddress = .ok (some account))
    (calls : List TransferCall) :
    JointlyExecutable account (({ context } : WasmVM).transfers storage calls).pendingTransfers ↔
      (calls.filter fun call => call.Accepted context account).length ≤ 1 ∧
        ∀ call ∈ calls, call.Accepted context account → call.amount ≠ 0 := by
  rw [pendingTransfers_transfers { context } haccount, List.nil_append]
  have haccepted : ∀ call, call ∈ calls.filter (fun call => call.Accepted context account) ↔
      call ∈ calls ∧ call.Accepted context account := by
    simp [List.mem_filter]
  have hamounts : (∀ call ∈ calls, call.Accepted context account → call.amount ≠ 0) ↔
      ∀ call ∈ calls.filter (fun call => call.Accepted context account), call.amount ≠ 0 := by
    simp [List.mem_filter]
  rw [hamounts]
  generalize calls.filter (fun call => call.Accepted context account) = accepted at *
  match accepted with
  | [] => exact iff_of_true trivial ⟨Nat.zero_le 1, fun _ h => absurd h List.not_mem_nil⟩
  | [call] =>
    obtain ⟨hnonce, hbalance⟩ :=
      validate_transaction ((haccepted call).mp List.mem_cons_self).2
    constructor
    · rintro ⟨-, hvalid, -⟩
      refine ⟨le_rfl, fun call' hmem => ?_⟩
      rw [List.mem_singleton.mp hmem]
      exact hbalance.mp hvalid
    · rintro ⟨-, hamount⟩
      exact ⟨hnonce, hbalance.mpr (hamount call List.mem_cons_self), trivial⟩
  | first :: second :: rest =>
    refine iff_of_false (not_jointlyExecutable_two first second _) ?_
    rintro ⟨hlength, -⟩
    simp at hlength

end Transfers

/-! ## An example -/

/-- The account of a contract, with a balance of 10. -/
def contractWithTen : Account where
  balance := 10
  nonce := 0
  codeHash := some (List.replicate 32 7)
  anonymousState := {}

def tenContext : WasmExecutionContext := { contractAddress := utf8 "contract-1" }

def tenDb : Db where
  entries := ByteMap.writeAll ∅ [(accountKey (utf8 "contract-1"), serialize contractWithTen)]

theorem getAccount_tenDb :
    getAccount tenDb tenContext.contractAddress = .ok (some contractWithTen) := by
  apply getRecord_serialize (Codec.fits_of_length (by decide))
  rw [tenDb, ByteMap.getElem?_writeAll]
  decide

theorem one_transfer_executable :
    getAccount tenDb tenContext.contractAddress = .ok (some contractWithTen) ∧
      JointlyExecutable contractWithTen (({ context := tenContext } : WasmVM).transfers tenDb
        [{ recipient := [2], amount := 3 }]).pendingTransfers := by
  refine ⟨getAccount_tenDb, (jointly_executable_iff tenDb tenContext contractWithTen
    getAccount_tenDb _).mpr ⟨by decide, ?_⟩⟩
  decide

/-- **Two transfers with one nonce**: the contract could pay both, and the second one is not valid
at its turn. -/
theorem two_transfers_not_executable :
    getAccount tenDb tenContext.contractAddress = .ok (some contractWithTen) ∧
      (({ context := tenContext } : WasmVM).transfers tenDb
        [{ recipient := [2], amount := 3 },
          { recipient := [2], amount := 3 }]).pendingTransfers.length = 2 ∧
      ¬ JointlyExecutable contractWithTen (({ context := tenContext } : WasmVM).transfers tenDb
        [{ recipient := [2], amount := 3 },
          { recipient := [2], amount := 3 }]).pendingTransfers := by
  have hpending := pendingTransfers_transfers { context := tenContext } getAccount_tenDb
    [{ recipient := [2], amount := 3 }, { recipient := [2], amount := 3 }]
  refine ⟨getAccount_tenDb, ?_, ?_⟩
  · rw [hpending]
    decide
  · rw [hpending]
    exact not_jointlyExecutable_two _ _ _

end Prims
