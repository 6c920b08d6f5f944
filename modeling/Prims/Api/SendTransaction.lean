import Mathlib.Algebra.BigOperators.Fin
import Mathlib.Algebra.Order.BigOperators.Group.Multiset
import Prims.Api.Rpc
import Prims.Consensus.Mempool
import Prims.Vm.Reference

/-!
# Submission of transactions

`send_transaction`: the text is decoded, the transaction is checked against the account of its
sender, a contract call is executed on the store, and the transaction goes to the mempool. The
nonce of the sender is compared and never advanced: no submission changes an account. What was
accepted passes the same checks again, and unless it is a contract call that fails this time, it is
accepted again.

## Main definitions

* `authenticateTransaction`, `validateTransactionType`: the checks
* `admitTransaction`: the checks and the contract call
* `sendTransaction`: the method
* `Accepts`: what an accepted submission does

## Main results

* `getAccount_submitAll`: no run of submissions changes an account
* `submission_effect`: a rejected submission has no effect, an accepted one has exactly its effect
* `resubmission_rejected_iff`: a transaction that was accepted is rejected later if and only if it
  is a contract call that fails on the store as it is then
-/

namespace Prims

open Bincode

/-! ## The method -/

structure RpcSendTransactionResponse where
  accepted : Bool
  txHash : String
  mempoolSize : ℕ
  deriving DecidableEq, Repr

/-- What the methods share. -/
structure RpcState (n : ℕ) where
  storage : Db
  mempool : Mempool n

section SendTransaction

variable (engine : WasmEngine) (P : Primitives) {n : ℕ}

def decodeTransaction (hexTx : String) : Except RpcError Transaction := do
  let txBytes ← decodeHex hexTx "hex_tx"
  (deserialize txBytes).mapError .invalidTransactionEncoding

/-- The checks of every transaction: its size, its signature and its nonce. They return the account
of the sender. -/
def authenticateTransaction (storage : Db) (transaction : Transaction) :
    Except RpcError (Option Account) := do
  (validateTransactionSize transaction).mapError fun e => .transactionRejected (.validation e)
  let senderPublicKey ←
    (transaction.sender.toVector? 32).okOr (.transactionRejected .senderKeyLength)
  let signatureIsValid ← (verifyTransaction P transaction senderPublicKey).mapError
    fun e => .transactionRejected (.signatureError e)
  ensure (signatureIsValid = true) (.transactionRejected .invalidSignature)
  let senderAccount ← (getAccount storage transaction.sender).mapError .loadSenderAccount
  (validateTransactionNonce transaction senderAccount).mapError
    fun e => .transactionRejected (.validation e)
  return senderAccount

/-- The fee of a transaction that pays nothing else. -/
def validateFee (transaction : Transaction) (senderAccount : Option Account) :
    Except TransactionRejection Unit := do
  ensure (transaction.fee = fixedTransactionFee)
    (.invalidFee fixedTransactionFee transaction.fee)
  let balance := (senderAccount.map Account.balance).getD 0
  ensure (transaction.fee ≤ balance) (.insufficientBalanceForFee balance transaction.fee)

def validateContractDeployment (transaction : Transaction) : Except TransactionRejection Unit := do
  let codeWasm ← transaction.data.okOr .deployWithoutBytecode
  ensure (codeWasm ≠ []) .deployEmptyBytecode
  ensure (transaction.amount = 0) (.deployAmountNotZero transaction.amount)
  ensure (transaction.recipient ≠ []) .deployEmptyTarget

def validateContractCall (transaction : Transaction) :
    Except TransactionRejection ContractCallPayload := do
  ensure (transaction.amount = 0) (.callAmountNotZero transaction.amount)
  ensure (transaction.recipient ≠ []) .callEmptyTarget
  let payloadBytes ← transaction.data.okOr .callWithoutPayload
  let payload : ContractCallPayload ← (deserialize payloadBytes).mapError .callInvalidPayload
  ensure (Text.trim payload.method.toList ≠ []) .callEmptyMethod
  ensure (payload.gasLimit ≠ 0) .callZeroGasLimit
  return payload

/-- The checks of each type of transaction. Those of a contract call return its payload. -/
def validateTransactionType (transaction : Transaction) (senderAccount : Option Account) :
    Except TransactionRejection (Option ContractCallPayload) :=
  match transaction.txType with
  | .transfer | .stake _ | .publicToAnon | .anonToPublic => do
    (validateTransactionBalance transaction senderAccount).mapError .validation
    return none
  | .deployContract => do
    validateFee transaction senderAccount
    validateContractDeployment transaction
    return none
  | .callContract => do
    validateFee transaction senderAccount
    let payload ← validateContractCall transaction
    return some payload
  | .unstake => do
    validateFee transaction senderAccount
    return none

/-- All checks of a transaction. -/
def checkTransaction (storage : Db) (transaction : Transaction) :
    Except RpcError (Option ContractCallPayload) := do
  let senderAccount ← authenticateTransaction P storage transaction
  (validateTransactionType transaction senderAccount).mapError .transactionRejected

/-- The contract call of a transaction. -/
def callContract (transaction : Transaction) (payload : ContractCallPayload) :
    Procedure VmError Db WasmExecutionOutcome :=
  executeContractCall engine P
    { contractAddress := transaction.recipient
      caller := transaction.sender
      blockHeight := 0
      shardId := transaction.destinationShard }
    payload.method payload.params payload.gasLimit

/-- The method up to the mempool: it touches the store only. -/
def admitTransaction (hexTx : String) : Procedure RpcError Db Transaction := do
  let transaction ← Procedure.lift (decodeTransaction hexTx)
  let call ← Procedure.read fun storage => checkTransaction P storage transaction
  if let some payload := call then
    let _ ← ExceptT.adapt (fun e => RpcError.transactionRejected (.callFailed e))
      (callContract engine P transaction payload)
  return transaction

/-- The rest of the method: what it sends to the mempool, and its response. -/
def enqueueTransaction (n : ℕ) [NeZero n] (transaction : Transaction) :
    MempoolProgram n RpcSendTransactionResponse := do
  let txHash := hashTransaction P transaction
  Mempool.addTransaction n transaction
  let mempoolSize ← Mempool.len n
  return ⟨true, encodeHex txHash.toList, mempoolSize⟩

variable [NeZero n]

def sendTransaction (hexTx : String) :
    Procedure RpcError (RpcState n) RpcSendTransactionResponse := do
  let transaction ← Procedure.zoom RpcState.storage (fun s storage => { s with storage })
    (admitTransaction engine P hexTx)
  Procedure.zoom RpcState.mempool (fun s mempool => { s with mempool })
    (Mempool.exec (enqueueTransaction P n transaction))

/-- A run of submissions, whether they are accepted or not. -/
def submitAll (s : RpcState n) (submissions : List String) : RpcState n :=
  submissions.foldl (fun s hexTx => ((sendTransaction engine P hexTx).run s).2) s

/-! ## What a submission does -/

variable {P}

/-- The mempool with one more transaction, in the partition of its sender. -/
def Mempool.added (mempool : Mempool n) (transaction : Transaction) : Mempool n :=
  let partition := partitionForAddress n transaction.sender
  Function.update mempool partition (mempool partition ++ [transaction])

/-- The transactions of all partitions together. -/
def Mempool.contents {n : ℕ} (mempool : Mempool n) : Multiset Transaction :=
  ∑ i, (mempool i : Multiset Transaction)

/-- The partition of the sender has one more transaction, and the others have what they had. -/
theorem Mempool.contents_added (mempool : Mempool n) (transaction : Transaction) :
    (mempool.added transaction).contents = transaction ::ₘ mempool.contents := by
  let partition := partitionForAddress n transaction.sender
  have hself : mempool.added transaction partition = mempool partition ++ [transaction] :=
    Function.update_self ..
  have hother : ∀ i ∈ ({partition} : Finset (Fin n))ᶜ,
      (mempool.added transaction i : Multiset Transaction) = mempool i := by
    intro i hi
    rw [Finset.mem_compl, Finset.mem_singleton] at hi
    exact congrArg _ (Function.update_of_ne hi _ _)
  rw [contents, contents, Fintype.sum_eq_add_sum_compl partition, Finset.sum_congr rfl hother,
    hself, Fintype.sum_eq_add_sum_compl partition, ← Multiset.coe_add, Multiset.coe_singleton,
    ← Multiset.singleton_add, ← add_assoc, add_comm ({transaction} : Multiset Transaction)]

/-- A transaction that is sent is in the mempool, and counting does not change it. -/
theorem run_enqueueTransaction (transaction : Transaction) (mempool : Mempool n) :
    ∃ response, response.txHash = encodeHex (hashTransaction P transaction).toList ∧
      Interaction.run Mempool.handle (enqueueTransaction P n transaction) mempool =
        (response, mempool.added transaction) := by
  have hadd : Interaction.run Mempool.handle (enqueueTransaction P n transaction) mempool =
      Interaction.run Mempool.handle (Mempool.len n >>= fun mempoolSize => pure
        ⟨true, encodeHex (hashTransaction P transaction).toList, mempoolSize⟩)
        (mempool.added transaction) := rfl
  have hlen : Interaction.run Mempool.handle (Mempool.len n) (mempool.added transaction) = _ :=
    Mempool.run_len (List.finRange n) 0 (mempool.added transaction)
  rw [hadd, Interaction.run_bind_apply, hlen]
  exact ⟨_, rfl, rfl⟩

/-- **What the checks and the call do**: the first failure is returned. -/
theorem admitTransaction_run (hexTx : String) (storage : Db) :
    (admitTransaction engine P hexTx).run storage =
      match decodeTransaction hexTx with
      | .error e => (.error e, storage)
      | .ok transaction =>
        match checkTransaction P storage transaction with
        | .error e => (.error e, storage)
        | .ok none => (.ok transaction, storage)
        | .ok (some payload) =>
          match (callContract engine P transaction payload).run storage with
          | (.ok _, after) => (.ok transaction, after)
          | (.error e, after) => (.error (.transactionRejected (.callFailed e)), after) := by
  rw [admitTransaction, Procedure.bind_run, Procedure.lift_run]
  cases decodeTransaction hexTx with
  | error e => rfl
  | ok transaction =>
    dsimp only
    rw [Procedure.read_bind_run]
    cases checkTransaction P storage transaction with
    | error e => rfl
    | ok call =>
      cases call with
      | none => rfl
      | some payload =>
        dsimp only
        rw [Procedure.bind_run, Procedure.adapt_run]
        rcases (callContract engine P transaction payload).run storage with ⟨result, after⟩
        cases result <;> rfl

/-- **What an authentic transaction satisfies.** -/
theorem authenticateTransaction_eq_ok {storage : Db} {transaction : Transaction}
    {senderAccount : Option Account} :
    authenticateTransaction P storage transaction = .ok senderAccount ↔
      (serialize transaction).length < maxTransactionSizeBytes ∧
        (∃ senderPublicKey : Bytes32, transaction.sender = senderPublicKey.toList ∧
          verifyTransaction P transaction senderPublicKey = .ok true) ∧
        getAccount storage transaction.sender = .ok senderAccount ∧
        validateTransactionNonce transaction senderAccount = .ok () := by
  rw [authenticateTransaction, validateTransactionSize]
  simp only [Except.bind_eq_ok, Except.mapError_eq_ok, Option.okOr_eq_ok, ensure_eq_ok,
    Bytes.toVector?_eq_some, exists_and_left]
  constructor
  · rintro ⟨hsize, -, key, hkey, valid, hverify, rfl, -, account, haccount, ⟨⟩, hnonce, ⟨⟩⟩
    exact ⟨hsize, ⟨key, hkey, hverify⟩, haccount, hnonce⟩
  · rintro ⟨hsize, ⟨key, hkey, hverify⟩, haccount, hnonce⟩
    exact ⟨hsize, (), key, hkey, true, hverify, rfl, (), senderAccount, haccount, (), hnonce, rfl⟩

theorem validateFee_none (transaction : Transaction) (u : Unit) :
    validateFee transaction none ≠ .ok u := by
  intro h
  obtain ⟨hfee, hbalance⟩ := ensure_bind_eq_ok.mp h
  rw [ensure_eq_ok, hfee] at hbalance
  exact absurd hbalance (by decide)

theorem validateTransactionBalance_none (transaction : Transaction) (u : Unit) :
    validateTransactionBalance transaction none ≠ .ok u := by
  intro h
  obtain ⟨-, h⟩ := ensure_bind_eq_ok.mp h
  obtain ⟨hfee, h⟩ := ensure_bind_eq_ok.mp h
  split at h
  · cases h
  · next required hrequired =>
    -- the fee is one at least, and without an account the balance is zero
    rw [UInt64.checkedAdd_eq_some, hfee] at hrequired
    have hbalance : required ≤ 0 := ensure_eq_ok.mp h
    have hone : fixedTransactionFee.toNat = 1 := rfl
    have hzero : required.toNat ≤ 0 := hbalance
    omega

/-- No type of transaction is free, so a sender without an account cannot pay. -/
theorem validateTransactionType_none (transaction : Transaction)
    (call : Option ContractCallPayload) :
    validateTransactionType transaction none ≠ .ok call := by
  intro h
  rw [validateTransactionType] at h
  cases htype : transaction.txType with
  | transfer | stake | publicToAnon | anonToPublic =>
    rw [htype] at h
    obtain ⟨u, hbalance, -⟩ := Except.bind_eq_ok.mp h
    exact validateTransactionBalance_none transaction u (Except.mapError_eq_ok.mp hbalance)
  | deployContract | callContract | unstake =>
    rw [htype] at h
    obtain ⟨u, hfee, -⟩ := Except.bind_eq_ok.mp h
    exact validateFee_none transaction u hfee

/-- A transaction that is written is read back. -/
theorem decodeTransaction_encodeHex {transaction : Transaction} (h : Codec.Fits transaction) :
    decodeTransaction (encodeHex (serialize transaction)) = .ok transaction := by
  rw [decodeTransaction, Except.bind_eq_ok]
  refine ⟨_, decodeHex_encodeHex _ _, ?_⟩
  rw [deserialize_serialize h]
  rfl

/-- The store is read for the account of the sender only. -/
theorem checkTransaction_congr {storage storage' : Db} {transaction : Transaction}
    (h : getAccount storage' transaction.sender = getAccount storage transaction.sender) :
    checkTransaction P storage' transaction = checkTransaction P storage transaction := by
  simp only [checkTransaction, authenticateTransaction, h]

/-- The checks return a payload for contract calls only. -/
theorem checkTransaction_eq_ok {storage : Db} {transaction : Transaction}
    {call : Option ContractCallPayload} (h : checkTransaction P storage transaction = .ok call) :
    (call = none ∧ transaction.txType ≠ .callContract) ∨
      ∃ payload, call = some payload ∧ transaction.txType = .callContract ∧
        validateContractCall transaction = .ok payload := by
  rw [checkTransaction, Except.bind_eq_ok] at h
  obtain ⟨account, -, h⟩ := h
  rw [Except.mapError_eq_ok, validateTransactionType] at h
  -- a branch that ends in `none` returns no payload, whatever it checks first
  have hnone : ∀ {check : Except TransactionRejection Unit},
      (check >>= fun _ => pure none) = .ok call → call = none := by
    intro check hcheck
    obtain ⟨-, -, hcall⟩ := Except.bind_eq_ok.mp hcheck
    exact (Except.ok.inj hcall).symm
  cases htype : transaction.txType with
  | transfer | stake | publicToAnon | anonToPublic | unstake =>
    rw [htype] at h
    exact .inl ⟨hnone h, nofun⟩
  | deployContract =>
    rw [htype] at h
    obtain ⟨-, -, h⟩ := Except.bind_eq_ok.mp h
    exact .inl ⟨hnone h, nofun⟩
  | callContract =>
    rw [htype] at h
    obtain ⟨-, -, h⟩ := Except.bind_eq_ok.mp h
    obtain ⟨payload, hpayload, hcall⟩ := Except.bind_eq_ok.mp h
    exact .inr ⟨payload, (Except.ok.inj hcall).symm, rfl, hpayload⟩

/-- Two stores that differ in the record and the slots of one contract only. -/
def AgreesOutside (address : Bytes) (before after : Db) : Prop :=
  ∀ key, key ≠ contractKey address → (∀ k, key ≠ contractStorageKey address k) →
    after.entries[key]? = before.entries[key]?

/-- No slot and no contract record is an account. -/
theorem AgreesOutside.getAccount {address : Bytes} {before after : Db}
    (h : AgreesOutside address before after) (address' : Bytes) :
    Prims.getAccount after address' = Prims.getAccount before address' :=
  getRecord_congr (h (accountKey address') (contractKey_ne_accountKey _ _).symm
    fun _ => (contractStorageKey_ne_accountKey _ _ _).symm)

/-- A contract call fails and changes nothing, or it changes its own contract only. -/
theorem callContract_cases (transaction : Transaction) (payload : ContractCallPayload)
    (storage : Db) :
    (∃ e, (callContract engine P transaction payload).run storage = (.error e, storage)) ∨
      ∃ outcome after, (callContract engine P transaction payload).run storage =
          (.ok outcome, after) ∧
        AgreesOutside transaction.recipient storage after := by
  rcases executeContractCall_cases engine P storage _ payload.method payload.params
    payload.gasLimit with hfail | ⟨outcome, after, hok, hcommits⟩
  · exact .inl hfail
  · exact .inr ⟨outcome, after, hok, hcommits.frame⟩

/-- **A submission is admitted** when its checks pass and its call, if there is one, succeeds. Only
a call changes the store, and nothing changes when it fails. -/
theorem admitTransaction_cases (hexTx : String) (storage : Db) :
    (∃ e, (admitTransaction engine P hexTx).run storage = (.error e, storage)) ∨
      ∃ transaction call after, decodeTransaction hexTx = .ok transaction ∧
        checkTransaction P storage transaction = .ok call ∧
        (admitTransaction engine P hexTx).run storage = (.ok transaction, after) ∧
        (transaction.txType ≠ .callContract → after = storage) ∧
        AgreesOutside transaction.recipient storage after := by
  rw [admitTransaction_run]
  cases decodeTransaction hexTx with
  | error e => exact .inl ⟨e, rfl⟩
  | ok transaction =>
    dsimp only
    cases hcheck : checkTransaction P storage transaction with
    | error e => exact .inl ⟨e, rfl⟩
    | ok call =>
      rcases checkTransaction_eq_ok hcheck with ⟨rfl, htype⟩ | ⟨payload, rfl, htype, -⟩
      · exact .inr ⟨transaction, none, storage, rfl, hcheck, rfl, fun _ => rfl, fun _ _ _ => rfl⟩
      · dsimp only
        rcases callContract_cases engine (P := P) transaction payload storage with
          ⟨e, hfail⟩ | ⟨outcome, after, hok, hframe⟩
        · rw [hfail]
          exact .inl ⟨_, rfl⟩
        · rw [hok]
          exact .inr ⟨transaction, some payload, after, rfl, hcheck, rfl,
            fun hne => absurd htype hne, hframe⟩

theorem sendTransaction_of_error {hexTx : String} {s : RpcState n} {e : RpcError}
    (h : (admitTransaction engine P hexTx).run s.storage = (.error e, s.storage)) :
    (sendTransaction engine P hexTx).run s = (.error e, s) := by
  rw [sendTransaction, Procedure.zoom_bind_run, h]

theorem sendTransaction_of_ok {hexTx : String} {s : RpcState n} {transaction : Transaction}
    {after : Db} (h : (admitTransaction engine P hexTx).run s.storage = (.ok transaction, after)) :
    ∃ response, response.txHash = encodeHex (hashTransaction P transaction).toList ∧
      (sendTransaction engine P hexTx).run s =
        (.ok response, ⟨after, s.mempool.added transaction⟩) := by
  obtain ⟨response, htxHash, hrun⟩ := run_enqueueTransaction (P := P) transaction s.mempool
  have hexec : (Mempool.exec (enqueueTransaction P n transaction) :
      Procedure RpcError (Mempool n) _).run s.mempool =
        (.ok response, s.mempool.added transaction) := by
    show (match Interaction.run Mempool.handle (enqueueTransaction P n transaction) s.mempool with
      | (a, mempool') => (Except.ok a, mempool')) = _
    rw [hrun]
  refine ⟨response, htxHash, ?_⟩
  rw [sendTransaction, Procedure.zoom_bind_run, h]
  show (((Mempool.exec (enqueueTransaction P n transaction) :
    Procedure RpcError (Mempool n) _).run s.mempool).1, RpcState.mk after _) = _
  rw [hexec]

variable (P) in
/-- **What an accepted submission does**: the mempool has the decoded transaction in addition, the
response has its hash, and only a contract call changes the store, in its own contract. -/
structure Accepts (hexTx : String) (before after : RpcState n)
    (response : RpcSendTransactionResponse) (transaction : Transaction) : Prop where
  decoded : decodeTransaction hexTx = .ok transaction
  checked : ∃ call, checkTransaction P before.storage transaction = .ok call
  txHash : response.txHash = encodeHex (hashTransaction P transaction).toList
  mempool : after.mempool = before.mempool.added transaction
  unchanged : transaction.txType ≠ .callContract → after.storage = before.storage
  frame : AgreesOutside transaction.recipient before.storage after.storage

/-- A submission is rejected and changes nothing, or it is admitted and added to the mempool. -/
theorem sendTransaction_cases (hexTx : String) (s : RpcState n) :
    (∃ e, (sendTransaction engine P hexTx).run s = (.error e, s)) ∨
      ∃ response after transaction, (sendTransaction engine P hexTx).run s = (.ok response, after) ∧
        Accepts P hexTx s after response transaction := by
  rcases admitTransaction_cases engine (P := P) hexTx s.storage with
    ⟨e, hfail⟩ | ⟨transaction, call, after, hdecode, hcheck, hok, hunchanged, hframe⟩
  · exact .inl ⟨e, sendTransaction_of_error engine hfail⟩
  · obtain ⟨response, htxHash, hrun⟩ := sendTransaction_of_ok engine hok
    exact .inr ⟨response, _, transaction, hrun,
      ⟨hdecode, ⟨call, hcheck⟩, htxHash, rfl, hunchanged, hframe⟩⟩

/-- A submission changes no account. -/
theorem getAccount_sendTransaction (hexTx : String) (s : RpcState n) (address : Bytes) :
    getAccount ((sendTransaction engine P hexTx).run s).2.storage address =
      getAccount s.storage address := by
  rcases sendTransaction_cases engine (P := P) hexTx s with
    ⟨e, hrun⟩ | ⟨response, after, transaction, hrun, haccepts⟩
  · rw [hrun]
  · rw [hrun]
    exact haccepts.frame.getAccount address

/-- **No run of submissions changes an account.** -/
theorem getAccount_submitAll (submissions : List String) (s : RpcState n) (address : Bytes) :
    getAccount (submitAll engine P s submissions).storage address =
      getAccount s.storage address := by
  induction submissions generalizing s with
  | nil => rfl
  | cons hexTx submissions ih =>
    exact (ih _).trans (getAccount_sendTransaction engine hexTx s address)

/-- **A rejected submission has no effect, an accepted one has exactly its effect.** When the method
returns an error, the store and the mempool are as before. When it returns a response, the mempool
has the decoded transaction in addition, the response has its hash, the store is as before unless
the transaction is a contract call, and then it may differ in the slots and the record of the called
contract only. -/
theorem submission_effect (engine : WasmEngine) (P : Primitives) {n : ℕ} [NeZero n] (hexTx : String)
    (s : RpcState n) :
    (∀ e after, (sendTransaction engine P hexTx).run s = (.error e, after) →
      after.storage = s.storage ∧ after.mempool.contents = s.mempool.contents) ∧
    ∀ response after, (sendTransaction engine P hexTx).run s = (.ok response, after) →
      ∃ transaction, decodeTransaction hexTx = .ok transaction ∧
        after.mempool.contents = transaction ::ₘ s.mempool.contents ∧
        response.txHash = encodeHex (hashTransaction P transaction).toList ∧
        (transaction.txType ≠ .callContract → after.storage = s.storage) ∧
        (transaction.txType = .callContract →
          AgreesOutside transaction.recipient s.storage after.storage) := by
  rcases sendTransaction_cases engine (P := P) hexTx s with
    ⟨e, hrun⟩ | ⟨response, after, transaction, hrun, haccepts⟩
  · rw [hrun]
    refine ⟨?_, nofun⟩
    rintro _ _ ⟨⟩
    exact ⟨rfl, rfl⟩
  · rw [hrun]
    refine ⟨nofun, ?_⟩
    rintro _ _ ⟨⟩
    refine ⟨transaction, haccepts.decoded, ?_, haccepts.txHash, haccepts.unchanged,
      fun _ => haccepts.frame⟩
    rw [haccepts.mempool, Mempool.contents_added]

/-! ## Resubmission -/

variable (P)

/-- The transaction is a contract call, and the call fails on the store. -/
def CallFails (storage : Db) (transaction : Transaction) : Prop :=
  transaction.txType = .callContract ∧ ∃ payload e, validateContractCall transaction = .ok payload ∧
    ((callContract engine P transaction payload).run storage).1 = .error e

/-- The store `after` is what the contract call of the transaction, if it is one, leaves of the
store `before`. -/
def AppliesCall (before : Db) (transaction : Transaction) (after : Db) : Prop :=
  ∀ payload, transaction.txType = .callContract → validateContractCall transaction = .ok payload →
    after = ((callContract engine P transaction payload).run before).2

omit [NeZero n] in
/-- How often the mempool has a transaction. -/
def Mempool.copies (mempool : Mempool n) (transaction : Transaction) : ℕ :=
  ∑ i, (mempool i).count transaction

variable {P}

omit [NeZero n] in
theorem Mempool.copies_eq_count (mempool : Mempool n) (transaction : Transaction) :
    mempool.copies transaction = mempool.contents.count transaction := by
  rw [copies, contents, Multiset.count_sum']
  simp only [Multiset.coe_count]

theorem Mempool.copies_added (mempool : Mempool n) (transaction transaction' : Transaction) :
    (mempool.added transaction').copies transaction =
      mempool.copies transaction + [transaction'].count transaction := by
  rw [copies_eq_count, copies_eq_count, contents_added, ← Multiset.singleton_add,
    Multiset.count_add, Nat.add_comm, ← Multiset.coe_singleton, Multiset.coe_count]

/-- No run of submissions removes a transaction. -/
theorem copies_submitAll (submissions : List String) (s : RpcState n) (transaction : Transaction) :
    s.mempool.copies transaction ≤
      (submitAll engine P s submissions).mempool.copies transaction := by
  induction submissions generalizing s with
  | nil => exact Nat.le_refl _
  | cons hexTx submissions ih =>
    refine Nat.le_trans ?_ (ih _)
    dsimp only
    rcases sendTransaction_cases engine (P := P) hexTx s with
      ⟨e, hrun⟩ | ⟨response, after, transaction', hrun, haccepts⟩
    · rw [hrun]
    · rw [hrun, haccepts.mempool, Mempool.copies_added]
      exact Nat.le_add_right _ _

/-- **A transaction whose checks pass** is rejected when its call fails, and only then. -/
theorem sendTransaction_checked {hexTx : String} {s : RpcState n} {transaction : Transaction}
    {call : Option ContractCallPayload} (hdecode : decodeTransaction hexTx = .ok transaction)
    (hcheck : checkTransaction P s.storage transaction = .ok call) :
    (CallFails engine P s.storage transaction ∧
        ∃ e, (sendTransaction engine P hexTx).run s = (.error e, s)) ∨
      (¬ CallFails engine P s.storage transaction ∧
        ∃ response after, (sendTransaction engine P hexTx).run s =
            (.ok response, ⟨after, s.mempool.added transaction⟩) ∧
          AppliesCall engine P s.storage transaction after) := by
  have hadmit := admitTransaction_run engine (P := P) hexTx s.storage
  rw [hdecode] at hadmit
  dsimp only at hadmit
  rw [hcheck] at hadmit
  rcases checkTransaction_eq_ok hcheck with ⟨rfl, htype⟩ | ⟨payload, rfl, htype, hpayload⟩
  · obtain ⟨response, -, hrun⟩ := sendTransaction_of_ok engine hadmit
    exact .inr ⟨fun hfails => htype hfails.1, response, _, hrun, fun _ hcall => absurd hcall htype⟩
  · dsimp only at hadmit
    rcases callContract_cases engine (P := P) transaction payload s.storage with
      ⟨e, hfail⟩ | ⟨outcome, after, hok, -⟩
    · rw [hfail] at hadmit
      exact .inl ⟨⟨htype, payload, e, hpayload, congrArg Prod.fst hfail⟩, _,
        sendTransaction_of_error engine hadmit⟩
    · rw [hok] at hadmit
      obtain ⟨response, -, hrun⟩ := sendTransaction_of_ok engine hadmit
      refine .inr ⟨?_, response, after, hrun, fun payload' _ hpayload' => ?_⟩
      · rintro ⟨-, payload', e, hpayload', hfails⟩
        cases hpayload.symm.trans hpayload'
        rw [hok] at hfails
        exact nomatch hfails
      · cases hpayload.symm.trans hpayload'
        rw [hok]

/-- **Resubmission.** A transaction that was accepted is rejected when it is submitted again, after
any other submissions, if and only if it is a contract call that fails on the store as it is then.
Otherwise it is in the mempool twice, and its call is applied to the store again. -/
theorem resubmission_rejected_iff (engine : WasmEngine) (P : Primitives) {n : ℕ} [NeZero n]
    (s : RpcState n) (hexTx : String) (transaction : Transaction)
    (hdecode : decodeTransaction hexTx = .ok transaction) (response : RpcSendTransactionResponse)
    (haccepted : ((sendTransaction engine P hexTx).run s).1 = .ok response)
    (others : List String) :
    let before := submitAll engine P s (hexTx :: others)
    let resubmission := (sendTransaction engine P hexTx).run before
    ((∃ e, resubmission = (.error e, before)) ↔ CallFails engine P before.storage transaction) ∧
      (¬ CallFails engine P before.storage transaction →
        2 ≤ resubmission.2.mempool.copies transaction ∧
          AppliesCall engine P before.storage transaction resubmission.2.storage) := by
  intro before resubmission
  obtain ⟨call, hcheck, hfirst⟩ : ∃ call, checkTransaction P s.storage transaction = .ok call ∧
      1 ≤ ((sendTransaction engine P hexTx).run s).2.mempool.copies transaction := by
    rcases sendTransaction_cases engine (P := P) hexTx s with
      ⟨e, hrun⟩ | ⟨response', after, transaction', hrun, haccepts⟩
    · rw [hrun] at haccepted
      exact nomatch haccepted
    · cases hdecode.symm.trans haccepts.decoded
      obtain ⟨call, hcheck⟩ := haccepts.checked
      refine ⟨call, hcheck, ?_⟩
      rw [hrun, haccepts.mempool, Mempool.copies_added, List.count_singleton_self]
      exact Nat.le_add_left _ _
  -- the account of the sender is as it was, so the checks pass again
  have hagain : checkTransaction P before.storage transaction = .ok call :=
    (checkTransaction_congr (getAccount_submitAll engine (hexTx :: others) s _)).trans hcheck
  have hheld : 1 ≤ before.mempool.copies transaction :=
    hfirst.trans (copies_submitAll engine others _ transaction)
  rcases sendTransaction_checked engine hdecode hagain with
    ⟨hfails, hrejected⟩ | ⟨hfails, response', after, hrun, happlies⟩
  · exact ⟨iff_of_true hrejected hfails, fun h => absurd hfails h⟩
  · have hresubmission : resubmission =
      (.ok response', ⟨after, before.mempool.added transaction⟩) := hrun
    rw [hresubmission]
    refine ⟨iff_of_false ?_ hfails, fun _ => ⟨?_, happlies⟩⟩
    · rintro ⟨e, he⟩
      exact nomatch congrArg Prod.fst he
    · show 2 ≤ (before.mempool.added transaction).copies transaction
      rw [Mempool.copies_added, List.count_singleton_self]
      omega

end SendTransaction

/-! ## A transfer that is submitted twice -/

/-- A transfer, signed with the key of the seed `01..01`. -/
def signedTransfer : Transaction :=
  { sampleTransfer 1 with
    sender := sampleHeader.validator
    signature := beBytes 64
      0x358581b7626c490ff1762a18092af32554bd7914f45651caa1d1f078fcc805b8c1f44f4e22c42ad51d943de2592f0ddb19b7949d42d5332846faaa93fe05fd03 }

/-- The primitives with the signature of the transfer. -/
def transferSignature : Primitives :=
  .recorded [{
    secretKey := .replicate 32 1
    publicKey := beVector 32 0x8a88e3dd7409f195fd52db2d3cba5d72ca6709bf1d94121bf3748801b40f6f5c
    message := unsignedTransactionBytes signedTransfer
    signature := beVector 64
      0x358581b7626c490ff1762a18092af32554bd7914f45651caa1d1f078fcc805b8c1f44f4e22c42ad51d943de2592f0ddb19b7949d42d5332846faaa93fe05fd03 }]

def fundedAccount : Account := ⟨1000, 0, none, {}⟩

def fundedDb : Db where
  entries := ByteMap.writeAll ∅ [(accountKey signedTransfer.sender, serialize fundedAccount)]

/-- A node with an account for the sender and an empty mempool. -/
def fundedNode : RpcState 1 := ⟨fundedDb, fun _ => []⟩

/-- An engine that compiles nothing; a transfer does not run on it. -/
def noEngine : WasmEngine := ⟨fun _ _ => .error "no module"⟩

theorem fits_signedTransfer : Codec.Fits signedTransfer :=
  Codec.fits_of_length (by decide +kernel)

theorem getAccount_fundedDb :
    getAccount fundedDb signedTransfer.sender = .ok (some fundedAccount) := by
  apply getRecord_serialize (Codec.fits_of_length (by decide))
  rw [fundedDb, ByteMap.getElem?_writeAll]
  decide +kernel

theorem authenticateTransaction_signedTransfer :
    authenticateTransaction transferSignature fundedDb signedTransfer =
      .ok (some fundedAccount) := by
  refine authenticateTransaction_eq_ok.mpr ⟨by decide +kernel, ?_, getAccount_fundedDb, ?_⟩
  · exact ⟨beVector 32 0x8a88e3dd7409f195fd52db2d3cba5d72ca6709bf1d94121bf3748801b40f6f5c,
      rfl, by decide +kernel⟩
  · exact ensure_eq_ok.mpr (by decide)

theorem checkTransaction_signedTransfer :
    checkTransaction transferSignature fundedDb signedTransfer = .ok none := by
  rw [checkTransaction, Except.bind_eq_ok]
  exact ⟨some fundedAccount, authenticateTransaction_signedTransfer, rfl⟩

/-- The transfer is accepted in every state with the accounts of the node. -/
theorem sendTransaction_signedTransfer {s : RpcState 1}
    (h : getAccount s.storage signedTransfer.sender =
      getAccount fundedDb signedTransfer.sender) :
    ∃ response after, (sendTransaction noEngine transferSignature
        (encodeHex (serialize signedTransfer))).run s =
      (.ok response, ⟨after, s.mempool.added signedTransfer⟩) := by
  have hcheck := (checkTransaction_congr (P := transferSignature) h).trans
    checkTransaction_signedTransfer
  rcases sendTransaction_checked noEngine
    (decodeTransaction_encodeHex fits_signedTransfer) hcheck with
    ⟨hfails, -⟩ | ⟨-, response, after, hrun, -⟩
  · exact nomatch hfails.1
  · exact ⟨response, after, hrun⟩

/-- The transfer of the funded node is accepted, and it is all that changes. -/
theorem signedTransfer_effect : ∃ response after,
    (sendTransaction noEngine transferSignature (encodeHex (serialize signedTransfer))).run
        fundedNode = (.ok response, after) ∧
      after.mempool.contents = signedTransfer ::ₘ fundedNode.mempool.contents ∧
      after.storage = fundedNode.storage := by
  obtain ⟨response, storage, hrun⟩ := sendTransaction_signedTransfer (s := fundedNode) rfl
  obtain ⟨transaction, hdecode, hcontents, -, hstore, -⟩ :=
    (submission_effect noEngine transferSignature (encodeHex (serialize signedTransfer))
      fundedNode).2 response _ hrun
  cases hdecode.symm.trans (decodeTransaction_encodeHex fits_signedTransfer)
  exact ⟨response, _, hrun, hcontents, hstore nofun⟩

/-- **A replay**: the transfer is submitted twice, it is accepted twice, and the mempool has it
twice. -/
theorem signedTransfer_accepted_twice :
    ∃ response response' s s',
      (sendTransaction noEngine transferSignature (encodeHex (serialize signedTransfer))).run
          fundedNode = (.ok response, s) ∧
        (sendTransaction noEngine transferSignature (encodeHex (serialize signedTransfer))).run s =
          (.ok response', s') ∧
        s'.mempool.copies signedTransfer = 2 := by
  obtain ⟨response, after, hrun⟩ := sendTransaction_signedTransfer (s := fundedNode) rfl
  have haccount := getAccount_sendTransaction noEngine (P := transferSignature)
    (encodeHex (serialize signedTransfer)) fundedNode signedTransfer.sender
  rw [hrun] at haccount
  obtain ⟨response', after', hrun'⟩ := sendTransaction_signedTransfer haccount
  have hcopies : ((fundedNode.mempool.added signedTransfer).added signedTransfer).copies
      signedTransfer = 2 := by
    rw [Mempool.copies_added, Mempool.copies_added, List.count_singleton_self, Mempool.copies]
    simp [fundedNode]
  exact ⟨response, response', ⟨after, fundedNode.mempool.added signedTransfer⟩,
    ⟨after', (fundedNode.mempool.added signedTransfer).added signedTransfer⟩, hrun, hrun', hcopies⟩

theorem signedTransfer_resubmission :
    ∃ response, ((sendTransaction noEngine transferSignature
        (encodeHex (serialize signedTransfer))).run fundedNode).1 = .ok response ∧
      let before := submitAll noEngine transferSignature fundedNode
        [encodeHex (serialize signedTransfer)]
      let resubmission := (sendTransaction noEngine transferSignature
        (encodeHex (serialize signedTransfer))).run before
      ((∃ e, resubmission = (.error e, before)) ↔
          CallFails noEngine transferSignature before.storage signedTransfer) ∧
        (¬ CallFails noEngine transferSignature before.storage signedTransfer →
          2 ≤ resubmission.2.mempool.copies signedTransfer ∧
            AppliesCall noEngine transferSignature before.storage signedTransfer
              resubmission.2.storage) := by
  obtain ⟨response, after, hrun⟩ := sendTransaction_signedTransfer (s := fundedNode) rfl
  have haccepted := congrArg Prod.fst hrun
  exact ⟨response, haccepted, resubmission_rejected_iff noEngine transferSignature fundedNode _
    signedTransfer (decodeTransaction_encodeHex fits_signedTransfer) response haccepted []⟩

end Prims
