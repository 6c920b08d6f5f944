import Prims.Client.Sessions

/-!
# Commands that succeed

What the client builds passes the checks of the node: it takes the nonce after the one of the
account, pays the fee, signs with the key of the sender, and makes the data that the type of the
transaction needs. So whether a command succeeds depends on its arguments and on the account of its
sender: the account must be there and be able to pay, its nonce must not be the last one, the
transaction must be small, and a contract that is called must run.

## Main definitions

* `Draft.Affordable`: what the account of the sender must have

## Main results

* `validateTransactionType_draft`: the checks of its type are those that the draft of a command
  leaves open
* `command_succeeds_iff`: when a command succeeds
-/

namespace Prims

open Bincode

/-- What a draft costs, and what it must name. The fee is 1. -/
def Draft.Affordable (draft : Draft) (account : Account) : Prop :=
  match draft.txType with
  | .transfer | .stake _ | .publicToAnon | .anonToPublic =>
    draft.amount ≠ 0 ∧ draft.amount.toNat + 1 ≤ account.balance.toNat
  | .callContract => 1 ≤ account.balance.toNat ∧ draft.recipient ≠ []
  | .deployContract | .unstake => 1 ≤ account.balance.toNat

/-! ## Checks -/

theorem one_le_toNat_iff {balance : UInt64} : fixedTransactionFee ≤ balance ↔ 1 ≤ balance.toNat :=
  UInt64.le_iff_toNat_le

/-- A transaction with the right fee pays for itself. -/
theorem validateFee_some_iff {transaction : Transaction} (hfee : transaction.fee =
      fixedTransactionFee) {account : Account} :
    validateFee transaction (some account) = .ok () ↔ 1 ≤ account.balance.toNat := by
  rw [validateFee, ensure_bind_eq_ok, ensure_eq_ok, hfee]
  exact (and_iff_right rfl).trans one_le_toNat_iff

theorem validateTransactionBalance_some_iff {transaction : Transaction} (hfee : transaction.fee =
      fixedTransactionFee) {account : Account} :
    validateTransactionBalance transaction (some account) = .ok () ↔
      transaction.amount ≠ 0 ∧ transaction.amount.toNat + 1 ≤ account.balance.toNat := by
  have hone : fixedTransactionFee.toNat = 1 := rfl
  rw [validateTransactionBalance, ensure_bind_eq_ok, ensure_bind_eq_ok, hfee]
  refine and_congr_right fun _ => (and_iff_right rfl).trans ?_
  cases hadd : transaction.amount.checkedAdd fixedTransactionFee with
  | none =>
    rw [UInt64.checkedAdd_eq_none, hone] at hadd
    have hbound := account.balance.toNat_lt
    exact iff_of_false nofun (by omega)
  | some required =>
    rw [UInt64.checkedAdd_eq_some, hone] at hadd
    rw [← hadd, ensure_eq_ok]
    exact UInt64.le_iff_toNat_le

section Acceptance

variable {engine : WasmEngine} {P : Primitives} {normalizeJson : String → Option Bytes} {n : ℕ}
  [NeZero n] {command : Command} {env : CliEnvironment} {draft : Draft} {account : Account}
  {secretKey : Bytes32} {nonce : UInt64}

/-- A check and no payload. -/
theorem exists_check_none {ε α : Type} {x : Except ε Unit} :
    (∃ call : Option α, (x >>= fun _ => pure none) = .ok call) ↔ x = .ok () := by
  cases x <;> simp [bind, Except.bind, pure, Except.pure]

theorem vector32_ne_nil (v : Bytes32) : v.toList ≠ [] := by
  intro hnil
  have hlength := v.toList_length
  rw [hnil] at hlength
  cases hlength

/-- The fee and the checks of a contract that is created. -/
theorem validateTransactionType_createContract {codeWasm : Bytes} (hcode : codeWasm ≠ [])
    (address : Bytes32) :
    let draft : Draft := ⟨.deployContract, address.toList, 0, defaultShardId, defaultShardId,
      some codeWasm⟩
    (∃ call, validateTransactionType (draft.transaction P secretKey nonce) (some account) =
      .ok call) ↔ 1 ≤ account.balance.toNat := by
  intro draft
  have hcontract : validateContractDeployment (draft.transaction P secretKey nonce) = .ok () := by
    show (do
      ensure (codeWasm ≠ []) _
      ensure ((0 : UInt64) = 0) _
      ensure (address.toList ≠ []) _) = _
    rw [ensure_bind_eq_ok, ensure_bind_eq_ok, ensure_eq_ok]
    exact ⟨hcode, rfl, vector32_ne_nil address⟩
  have htype : validateTransactionType (draft.transaction P secretKey nonce) (some account) =
      validateFee (draft.transaction P secretKey nonce) (some account) >>= fun _ =>
        validateContractDeployment (draft.transaction P secretKey nonce) >>= fun _ => pure none :=
    rfl
  have hfee : validateFee (draft.transaction P secretKey nonce) (some account) = .ok () ↔
      1 ≤ account.balance.toNat := validateFee_some_iff rfl
  rw [htype, hcontract, ← hfee]
  exact exists_check_none

/-- The fee and the checks of a contract that is called. -/
theorem validateTransactionType_callContract {address : Bytes} {payload : ContractCallPayload}
    (hfits : Codec.Fits payload) (hmethod : Text.trim payload.method.toList ≠ [])
    (hgas : payload.gasLimit ≠ 0) :
    let draft : Draft := ⟨.callContract, address, 0, defaultShardId, defaultShardId,
      some (serialize payload)⟩
    (∃ call, validateTransactionType (draft.transaction P secretKey nonce) (some account) =
      .ok call) ↔ 1 ≤ account.balance.toNat ∧ address ≠ [] := by
  intro draft
  let transaction := draft.transaction P secretKey nonce
  have hamount : transaction.amount = 0 := rfl
  have hrecipient : transaction.recipient = address := rfl
  have hdata : transaction.data = some (serialize payload) := rfl
  have hcall : validateContractCall transaction =
      ensure (address ≠ []) .callEmptyTarget >>= fun _ => .ok payload := by
    rw [validateContractCall, hamount, hrecipient, hdata, Option.okOr]
    simp only [bind, Except.bind, deserialize_serialize hfits]
    simp [ensure, Except.mapError, pure, Except.pure, hmethod, hgas]
  have htype : validateTransactionType transaction (some account) =
      validateFee transaction (some account) >>= fun _ =>
        validateContractCall transaction >>= fun payload => pure (some payload) := rfl
  have hfee : validateFee transaction (some account) = .ok () ↔ 1 ≤ account.balance.toNat :=
    validateFee_some_iff rfl
  rw [htype, hcall, ← hfee]
  constructor
  · rintro ⟨call, h⟩
    obtain ⟨_, hfee, h⟩ := Except.bind_eq_ok.mp h
    rw [bind_assoc, ensure_bind_eq_ok] at h
    exact ⟨hfee, h.1⟩
  · rintro ⟨hfee, haddress⟩
    rw [hfee, ensure, if_pos haddress]
    exact ⟨some payload, rfl⟩

/-- **The checks of its type** that the draft of a command leaves open. -/
theorem validateTransactionType_draft (hmemory : command.InMemory P normalizeJson)
    (hdraft : command.draft P normalizeJson (P.publicKey secretKey) = .ok draft) :
    (∃ call, validateTransactionType (draft.transaction P secretKey nonce) (some account) =
      .ok call) ↔ draft.Affordable account := by
  have hbalance : (draft.transaction P secretKey nonce).txType = draft.txType := rfl
  obtain ⟨-, hdata⟩ := hmemory _ _ hdraft
  have htransfer : (∃ call : Option ContractCallPayload, ((validateTransactionBalance
      (draft.transaction P secretKey nonce) (some account)).mapError
        TransactionRejection.validation >>= fun _ => pure none) = .ok call) ↔
      draft.amount ≠ 0 ∧ draft.amount.toNat + 1 ≤ account.balance.toNat := by
    rw [exists_check_none, Except.mapError_eq_ok]
    exact validateTransactionBalance_some_iff rfl
  have hfee : (∃ call : Option ContractCallPayload, (validateFee
      (draft.transaction P secretKey nonce) (some account) >>= fun _ => pure none) = .ok call) ↔
      1 ≤ account.balance.toNat := by
    rw [exists_check_none]
    exact validateFee_some_iff rfl
  cases command with
  | send recipient amount anon sourceShard destinationShard =>
    obtain ⟨recipient, -, hdraft⟩ := Except.bind_eq_ok.mp hdraft
    obtain rfl := Except.ok.inj hdraft
    cases anon <;> exact htransfer
  | stake amount duration =>
    obtain rfl := Except.ok.inj hdraft
    exact htransfer
  | unstake =>
    obtain rfl := Except.ok.inj hdraft
    exact hfee
  | createContract wasmFile =>
    obtain ⟨codeWasm, -, hdraft⟩ := Except.bind_eq_ok.mp hdraft
    obtain ⟨hcode, hdraft⟩ := ensure_bind_eq_ok.mp hdraft
    obtain rfl := Except.ok.inj hdraft
    exact validateTransactionType_createContract hcode _
  | callContract address method params gasLimit =>
    obtain ⟨addressBytes, -, hdraft⟩ := Except.bind_eq_ok.mp hdraft
    obtain ⟨hmethod, hdraft⟩ := ensure_bind_eq_ok.mp hdraft
    obtain ⟨hgas, hdraft⟩ := ensure_bind_eq_ok.mp hdraft
    obtain ⟨params, -, hdraft⟩ := Except.bind_eq_ok.mp hdraft
    obtain rfl := Except.ok.inj hdraft
    have hpayload : Codec.Fits (⟨String.ofList (Text.trim method.toList), params, gasLimit⟩ :
        ContractCallPayload) := Codec.fits_of_length (hdata _ rfl).1
    refine validateTransactionType_callContract hpayload ?_ hgas
    rw [String.toList_ofList, Text.trim_trim]
    exact hmethod
  | faucet recipientAddress amount sourceShard destinationShard =>
    obtain ⟨recipient, -, hdraft⟩ := Except.bind_eq_ok.mp hdraft
    obtain rfl := Except.ok.inj hdraft
    exact htransfer

/-- The signature of a draft verifies. -/
theorem verifyTransaction_draft (hP : P.AcceptsOwnSignatures) (draft : Draft)
    (secretKey : Bytes32) (nonce : UInt64) :
    verifyTransaction P (draft.transaction P secretKey nonce) (P.publicKey secretKey) =
      .ok true := by
  obtain ⟨hvalid, hverify⟩ := hP secretKey
    (unsignedTransactionBytes (draft.transaction P secretKey nonce))
  have hsignature : (draft.transaction P secretKey nonce).signature =
      (P.sign secretKey (unsignedTransactionBytes
        (draft.transaction P secretKey nonce))).toList := rfl
  rw [verifyTransaction, if_pos hvalid, hsignature, Bytes.toVector?_toList]
  dsimp only
  rw [hverify]

variable {storage : Db}

/-- **All checks of the node** that the draft of a command leaves open. -/
theorem checkTransaction_draft (hP : P.AcceptsOwnSignatures)
    (hmemory : command.InMemory P normalizeJson)
    (hdraft : command.draft P normalizeJson (P.publicKey secretKey) = .ok draft)
    (haccount : getAccount storage (P.publicKey secretKey).toList = .ok (some account)) :
    let transaction := draft.transaction P secretKey (account.nonce.saturatingAdd 1)
    (∃ call, checkTransaction P storage transaction = .ok call) ↔
      (serialize transaction).length < maxTransactionSizeBytes ∧
        account.nonce.toNat + 1 < 2 ^ 64 ∧ draft.Affordable account := by
  intro transaction
  have hread : getAccount storage transaction.sender = .ok (some account) := haccount
  have hnonce : validateTransactionNonce transaction (some account) = .ok () ↔
      account.nonce.toNat + 1 < 2 ^ 64 := by
    have hone : (1 : UInt64).toNat = 1 := rfl
    have hbound := account.nonce.toNat_lt
    rw [validateTransactionNonce, ensure_eq_ok, UInt64.lt_iff_toNat_lt]
    show account.nonce.toNat < (account.nonce.saturatingAdd 1).toNat ↔ _
    rw [UInt64.toNat_saturatingAdd]
    omega
  rw [← validateTransactionType_draft hmemory hdraft, ← hnonce]
  simp only [checkTransaction, Except.bind_eq_ok, authenticateTransaction_eq_ok,
    Except.mapError_eq_ok, hread, Except.ok.injEq]
  constructor
  · rintro ⟨call, _, ⟨hsize, -, rfl, hnonce⟩, htype⟩
    exact ⟨hsize, hnonce, call, htype⟩
  · rintro ⟨hsize, hnonce, call, htype⟩
    exact ⟨call, _, ⟨hsize, ⟨_, rfl, verifyTransaction_draft hP _ _ _⟩, rfl, hnonce⟩, htype⟩

/-! ## A command alone -/

variable (engine) (P) (normalizeJson) in
/-- A command, answered by a node that serves nobody else. -/
def Command.runAlone (env : CliEnvironment) (command : Command) (s : RpcState n) :
    Except CliError TransactionSubmissionOutput × RpcState n :=
  Interaction.run (m := StateM (RpcState n)) (fun request s => s.answer engine P request)
    (command.program P normalizeJson env) s

/-- The rest of a command, whoever answers it. -/
theorem run_submission {σ : Type} (handler : RpcRequest → StateM σ RpcReply)
    (transaction : Transaction) (s : σ) :
    Interaction.run handler (submission env draft transaction) s =
      (((handler (.sendTransaction (encodeHex (serialize transaction))) s).1.result
          RpcReply.getSubmission).map (draft.output env transaction),
        (handler (.sendTransaction (encodeHex (serialize transaction))) s).2) := rfl

/-- A command, whoever answers it. -/
theorem run_program {σ : Type} (handler : RpcRequest → StateM σ RpcReply) (s : σ) :
    Interaction.run handler (command.program P normalizeJson env) s =
      match command.key env with
      | .error e => (.error e, s)
      | .ok secretKey =>
        let balance := handler (.getBalance (encodeHex (P.publicKey secretKey).toList)) s
        Interaction.run handler (command.afterBalance P normalizeJson env secretKey balance.1)
          balance.2 := by
  rw [Command.program_eq]
  cases command.key env <;> rfl

theorem result_getBalance_eq_ok {reply : RpcReply} {balance : RpcBalanceResponse} :
    reply.result RpcReply.getBalance = .ok balance ↔ reply = .balance balance := by
  cases reply <;> simp [RpcReply.result, RpcReply.getBalance, Option.okOr]

theorem result_getSubmission_eq_ok {reply : RpcReply} {response : RpcSendTransactionResponse} :
    reply.result RpcReply.getSubmission = .ok response ↔ reply = .submission response := by
  cases reply <;> simp [RpcReply.result, RpcReply.getSubmission, Option.okOr]

/-- What is left of a command succeeds when the replies are a balance and a submission. -/
theorem run_afterBalance_ok_iff {σ : Type} (handler : RpcRequest → StateM σ RpcReply)
    (reply : RpcReply) (s : σ) :
    (∃ output, (Interaction.run handler
        (command.afterBalance P normalizeJson env secretKey reply) s).1 = .ok output) ↔
      ∃ balance draft response, reply = .balance balance ∧
        command.draft P normalizeJson (P.publicKey secretKey) = .ok draft ∧
        (handler (.sendTransaction (encodeHex (serialize
          (draft.transaction P secretKey (balance.nonce.saturatingAdd 1))))) s).1 =
            .submission response := by
  simp only [← result_getBalance_eq_ok, ← result_getSubmission_eq_ok]
  rw [Command.afterBalance]
  cases reply.result RpcReply.getBalance with
  | error e =>
    refine iff_of_false ?_ ?_
    · rintro ⟨_, ⟨⟩⟩
    · rintro ⟨_, _, _, ⟨⟩, _⟩
  | ok balance =>
    cases command.draft P normalizeJson (P.publicKey secretKey) with
    | error e =>
      refine iff_of_false ?_ ?_
      · rintro ⟨_, ⟨⟩⟩
      · rintro ⟨_, _, _, _, ⟨⟩, _⟩
    | ok draft =>
      have hmap : ∀ (f : RpcSendTransactionResponse → TransactionSubmissionOutput)
          (x : Except CliError RpcSendTransactionResponse),
          (∃ output, x.map f = .ok output) ↔ ∃ response, x = .ok response := by
        intro f x
        cases x <;> simp [Except.map]
      dsimp only
      rw [run_submission, hmap]
      constructor
      · rintro ⟨response, hresponse⟩
        exact ⟨balance, draft, response, rfl, rfl, hresponse⟩
      · rintro ⟨_, _, response, hbalance, hdraft, hresponse⟩
        cases hbalance
        cases hdraft
        exact ⟨response, hresponse⟩

variable (engine) (P) in
/-- The nonce of the account that is asked for, or 0 without one. -/
theorem answer_getBalance_iff (s : RpcState n) (address : Bytes) :
    (s.answer engine P (.getBalance (encodeHex address))).2 = s ∧
      ∀ balance, (s.answer engine P (.getBalance (encodeHex address))).1 = .balance balance ↔
        ∃ account, getAccount s.storage address = .ok account ∧
          (account.map (accountToRpc address)).getD (missingAccount address) = balance := by
  have hread : Rpc.getBalance s.storage (encodeHex address) =
      (getAccount s.storage address).mapError QueryError.loadAccount >>= fun account =>
        .ok ((account.map (accountToRpc address)).getD (missingAccount address)) := by
    rw [Rpc.getBalance, decodeHex_encodeHex]
    show ((getAccount s.storage address).mapError QueryError.loadAccount >>= _) = _
    congr 1
    ext account
    cases account <;> rfl
  rw [RpcState.answer, hread]
  cases getAccount s.storage address with
  | error e =>
    refine ⟨rfl, fun balance => iff_of_false ?_ ?_⟩
    · rintro ⟨⟩
    · rintro ⟨_, ⟨⟩, _⟩
  | ok account => simp [Except.mapError, bind, Except.bind]

/-- A transaction is accepted when it passes its checks and its call, if it is one, runs. -/
theorem answer_sendTransaction_iff (s : RpcState n) {transaction : Transaction}
    (hfits : Codec.Fits transaction) :
    (∃ response, (s.answer engine P
        (.sendTransaction (encodeHex (serialize transaction)))).1 = .submission response) ↔
      (∃ call, checkTransaction P s.storage transaction = .ok call) ∧
        ¬ CallFails engine P s.storage transaction := by
  have hdecode := decodeTransaction_encodeHex hfits
  rw [RpcState.answer]
  by_cases hcheck : ∃ call, checkTransaction P s.storage transaction = .ok call
  · obtain ⟨call, hcall⟩ := hcheck
    rcases sendTransaction_checked engine hdecode hcall with
      ⟨hfails, e, hrun⟩ | ⟨hfails, response, after, hrun, -⟩
    · rw [hrun]
      refine iff_of_false ?_ fun h => h.2 hfails
      rintro ⟨_, ⟨⟩⟩
    · rw [hrun]
      exact iff_of_true ⟨response, rfl⟩ ⟨⟨call, hcall⟩, hfails⟩
  · rcases sendTransaction_cases engine (P := P) (encodeHex (serialize transaction)) s with
      ⟨e, hrun⟩ | ⟨response, after, transaction', hrun, haccepts⟩
    · rw [hrun]
      refine iff_of_false ?_ fun h => hcheck h.1
      rintro ⟨_, ⟨⟩⟩
    · cases hdecode.symm.trans haccepts.decoded
      exact absurd haccepts.checked hcheck

/-- A command with a draft gets as far as asking for the balance if it has a key. -/
theorem key_eq_of_draft {publicKey : Bytes32}
    (h : command.draft P normalizeJson publicKey = .ok draft) :
    command.key env = env.secretKey := by
  cases command with
  | faucet recipientAddress amount sourceShard destinationShard =>
    obtain ⟨recipient, hrecipient, -⟩ := Except.bind_eq_ok.mp h
    rw [Command.key, hrecipient]
    cases env.secretKey <;> rfl
  | _ => rfl

/-- **When a command succeeds.** A node that answers its requests accepts a command if and only if
the client has a key and makes a draft of its arguments, the account of the sender is there, its
nonce is not the last one and it can pay, the signed transaction is small, and a contract that is
called does not fail. -/
theorem command_succeeds_iff (engine : WasmEngine) (P : Primitives)
    (normalizeJson : String → Option Bytes) {n : ℕ} [NeZero n] (hP : P.AcceptsOwnSignatures)
    (command : Command) (hmemory : command.InMemory P normalizeJson) (env : CliEnvironment)
    (s : RpcState n) :
    (∃ output, (command.runAlone engine P normalizeJson env s).1 = .ok output) ↔
      ∃ secretKey draft account, env.secretKey = .ok secretKey ∧
        command.draft P normalizeJson (P.publicKey secretKey) = .ok draft ∧
        getAccount s.storage (P.publicKey secretKey).toList = .ok (some account) ∧
        account.nonce.toNat + 1 < 2 ^ 64 ∧ draft.Affordable account ∧
        let transaction := draft.transaction P secretKey (account.nonce.saturatingAdd 1)
        (serialize transaction).length < maxTransactionSizeBytes ∧
          ¬ CallFails engine P s.storage transaction := by
  rw [Command.runAlone, run_program]
  constructor
  · cases hkey : command.key env with
    | error e => exact fun ⟨_, h⟩ => nomatch h
    | ok secretKey =>
      intro h
      obtain ⟨balance, draft, response, hbalance, hdraft, hresponse⟩ :=
        (run_afterBalance_ok_iff _ _ _).mp h
      obtain ⟨hnode, hread⟩ := answer_getBalance_iff engine P s
        (P.publicKey secretKey).toList
      obtain ⟨account, haccount, rfl⟩ := (hread balance).mp hbalance
      obtain ⟨hrecipient, hdata⟩ := hmemory _ draft hdraft
      rw [hnode] at hresponse
      obtain ⟨⟨call, hcheck⟩, hruns⟩ := (answer_sendTransaction_iff s
        (fits_draft_transaction hrecipient hdata _ _)).mp ⟨response, hresponse⟩
      obtain ⟨sender, hsender, -⟩ := exists_account_of_checkTransaction hcheck
      cases haccount.symm.trans hsender
      obtain ⟨hsize, hnonce, hpays⟩ :=
        (checkTransaction_draft hP hmemory hdraft haccount).mp ⟨call, hcheck⟩
      exact ⟨secretKey, draft, sender, (key_eq_of_draft hdraft).symm.trans hkey, hdraft, haccount,
        hnonce, hpays, hsize, hruns⟩
  · rintro ⟨secretKey, draft, account, hkey, hdraft, haccount, hnonce, hpays, hsize, hruns⟩
    obtain ⟨hnode, hread⟩ := answer_getBalance_iff engine P s
      (P.publicKey secretKey).toList
    obtain ⟨hrecipient, hdata⟩ := hmemory _ draft hdraft
    have hcheck := (checkTransaction_draft hP hmemory hdraft haccount).mpr ⟨hsize, hnonce, hpays⟩
    obtain ⟨response, hresponse⟩ := (answer_sendTransaction_iff s
      (fits_draft_transaction hrecipient hdata _ _)).mpr ⟨hcheck, hruns⟩
    rw [key_eq_of_draft hdraft, hkey]
    refine (run_afterBalance_ok_iff _ _ _).mpr ⟨_, draft, response,
      (hread _).mpr ⟨some account, haccount, rfl⟩, hdraft, ?_⟩
    rw [hnode]
    exact hresponse

end Acceptance

/-! ## A command that succeeds -/

theorem unstake_succeeds : ∃ output,
    (Command.unstake.runAlone noEngine proposalPrimitives (fun _ => none) unstakeEnv
      fundedNode).1 = .ok output := by
  refine (command_succeeds_iff noEngine proposalPrimitives (fun _ => none)
    proposalPrimitives_acceptsOwnSignatures .unstake (inMemory_unstake _ _) unstakeEnv
    fundedNode).mpr ?_
  refine ⟨.replicate 32 1, _, fundedAccount, rfl, rfl, getAccount_fundedDb, by decide, ?_, ?_, ?_⟩
  · show 1 ≤ fundedAccount.balance.toNat
    decide
  · decide +kernel
  · exact fun hfails => nomatch hfails.1

end Prims
