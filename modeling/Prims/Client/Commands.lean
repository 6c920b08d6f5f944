import Prims.Api.Queries
import Prims.Consensus.Proposal

/-!
# Commands of the client

The command line client and the faucet of the explorer submit transactions through the RPC. A
command asks for the balance of its sender, takes the nonce after the one of the account, builds and
signs a transaction, and submits it. What it submits depends on the account, the key and its
arguments only.

A command is a program that sends requests and goes on with the replies, whatever answers them. A
reply may be an error of the server, or it may not come at all.

## Main definitions

* `RpcRequest`, `RpcReply`: the requests of the client and the replies to them
* `loadSenderContext`, `submitTransaction`: what the commands share
* `sendCommand`, `stakeCommand`, `unstakeCommand`, `createContractCommand`, `callContractCommand`,
  `submitFaucetTransfer`: the commands
* `Command`, `Command.draft`: the commands and what they put in a transaction

## Main results

* `Command.program_eq`: every command is a balance, a draft and a submission
-/

namespace Prims

open Bincode

/-! ## Requests and replies -/

/-- The requests of the commands. -/
inductive RpcRequest where
  | getBalance (address : String)
  | sendTransaction (hexTx : String)

/-- What comes back: a result, an error of the server, or nothing. -/
inductive RpcReply where
  | balance (response : RpcBalanceResponse)
  | submission (response : RpcSendTransactionResponse)
  | error (code : ℤ)
  | lost

/-- Why a command fails. -/
inductive CliError where
  | noSecretKey
  | invalidHex (label : String)
  | http
  | rpc (code : ℤ)
  | unexpectedReply
  | unreadableWasmFile
  | emptyWasmFile
  | emptyMethod
  | zeroGasLimit
  | invalidParams
  | addressLength
  deriving DecidableEq, Repr

abbrev CliProgram (α : Type) := ExceptT CliError (Interaction RpcRequest RpcReply) α

/-- The result of a call, when the reply has the type that is expected. -/
def RpcReply.result {α : Type} (expected : RpcReply → Option α) (reply : RpcReply) :
    Except CliError α :=
  match reply with
  | .error code => .error (.rpc code)
  | .lost => .error .http
  | reply => (expected reply).okOr .unexpectedReply

def RpcReply.getBalance : RpcReply → Option RpcBalanceResponse
  | .balance response => some response
  | _ => none

def RpcReply.getSubmission : RpcReply → Option RpcSendTransactionResponse
  | .submission response => some response
  | _ => none

def rpcCall {α : Type} (expected : RpcReply → Option α) (request : RpcRequest) : CliProgram α :=
  .ask request fun reply => .done (reply.result expected)

/-- A check of the client. -/
def CliProgram.check {α : Type} (x : Except CliError α) : CliProgram α :=
  Interaction.done x

/-! ## Transactions -/

/-- What a command takes from its environment: the URL that it prints, and the key if there is
one. -/
structure CliEnvironment where
  rpcUrl : String
  secretKey : Except CliError Bytes32

structure SenderContext where
  secretKey : Bytes32
  publicKey : Bytes32
  addressHex : String
  nextNonce : UInt64

/-- The fields `sender` and `recipient` are `from` and `to` in the source. -/
structure TransactionSubmissionOutput where
  rpcUrl : String
  sender : String
  recipient : String
  txType : String
  stakeDuration : Option UInt64
  amount : UInt64
  fee : UInt64
  nonce : UInt64
  sourceShard : UInt16
  destinationShard : UInt16
  accepted : Bool
  txHash : String
  mempoolSize : ℕ
  deriving DecidableEq, Repr

def defaultShardId : UInt16 := 0

/-- Hexadecimal text with white space around it and with `0x` or `0X` before it. -/
def decodeHexVec (label value : String) : Except CliError Bytes :=
  let trimmed := Text.trim value.toList
  let normalized := ((['0', 'x'].isPrefixOf? trimmed).or (['0', 'X'].isPrefixOf? trimmed)).getD
    trimmed
  (Text.hexDecode normalized).okOr (.invalidHex label)

/-- What a command decides about its transaction. -/
structure Draft where
  txType : TransactionType
  recipient : Bytes
  amount : UInt64
  sourceShard : UInt16 := defaultShardId
  destinationShard : UInt16 := defaultShardId
  data : Option Bytes

section Commands

variable (P : Primitives)

/-- The transaction of a draft, signed with the key of its sender. -/
def Draft.transaction (draft : Draft) (secretKey : Bytes32) (nonce : UInt64) : Transaction :=
  let transaction : Transaction :=
    { txType := draft.txType
      sender := (P.publicKey secretKey).toList
      recipient := draft.recipient
      amount := draft.amount
      fee := fixedTransactionFee
      nonce
      sourceShard := draft.sourceShard
      destinationShard := draft.destinationShard
      signature := []
      data := draft.data }
  { transaction with signature := signTransaction P transaction secretKey }

def loadSenderContext (env : CliEnvironment) : CliProgram SenderContext := do
  let secretKey ← CliProgram.check env.secretKey
  let publicKey := P.publicKey secretKey
  let addressHex := encodeHex publicKey.toList
  let balance ← rpcCall RpcReply.getBalance (.getBalance addressHex)
  return {
    secretKey
    publicKey
    addressHex
    nextNonce := balance.nonce.saturatingAdd 1 }

def submitTransaction (env : CliEnvironment) (sender : SenderContext) (draft : Draft) :
    CliProgram TransactionSubmissionOutput := do
  let transaction := draft.transaction P sender.secretKey sender.nextNonce
  let hexTx := encodeHex (serialize transaction)
  let response ← rpcCall RpcReply.getSubmission (.sendTransaction hexTx)
  return {
    rpcUrl := env.rpcUrl
    sender := sender.addressHex
    recipient := encodeHex draft.recipient
    txType := (transactionTypeParts draft.txType).1
    stakeDuration := (transactionTypeParts draft.txType).2
    amount := draft.amount
    fee := fixedTransactionFee
    nonce := transaction.nonce
    sourceShard := draft.sourceShard
    destinationShard := draft.destinationShard
    accepted := response.accepted
    txHash := response.txHash
    mempoolSize := response.mempoolSize }

/-! ## The commands -/

def sendCommand (env : CliEnvironment) (recipient : String) (amount : UInt64) (anon : Bool)
    (sourceShard destinationShard : UInt16) : CliProgram TransactionSubmissionOutput := do
  let sender ← loadSenderContext P env
  let recipient ← CliProgram.check (decodeHexVec "to" recipient)
  let txType := if anon then TransactionType.publicToAnon else .transfer
  submitTransaction P env sender {
    txType
    recipient
    amount
    sourceShard
    destinationShard
    data := some (if anon then utf8 "prims-cli-send-anon" else utf8 "prims-cli-send") }

def stakeCommand (env : CliEnvironment) (amount duration : UInt64) :
    CliProgram TransactionSubmissionOutput := do
  let sender ← loadSenderContext P env
  submitTransaction P env sender {
    txType := .stake duration
    recipient := sender.publicKey.toList
    amount
    data := some (utf8 ("prims-cli-stake:" ++ toString duration.toNat)) }

def unstakeCommand (env : CliEnvironment) : CliProgram TransactionSubmissionOutput := do
  let sender ← loadSenderContext P env
  submitTransaction P env sender {
    txType := .unstake
    recipient := sender.publicKey.toList
    amount := 0
    data := some (utf8 "prims-cli-unstake") }

/-- The argument is what the file has, when it can be read. -/
def createContractCommand (env : CliEnvironment) (wasmFile : Option Bytes) :
    CliProgram TransactionSubmissionOutput := do
  let sender ← loadSenderContext P env
  let codeWasm ← CliProgram.check (wasmFile.okOr .unreadableWasmFile)
  CliProgram.check (ensure (codeWasm ≠ []) .emptyWasmFile)
  let contractAddress := deriveContractAddress P sender.publicKey.toList codeWasm
  submitTransaction P env sender {
    txType := .deployContract
    recipient := contractAddress.toList
    amount := 0
    data := some codeWasm }

/-- The parameters are parsed as JSON and written again, by `normalizeJson`. -/
def callContractCommand (normalizeJson : String → Option Bytes) (env : CliEnvironment)
    (address method params : String) (gasLimit : UInt64) :
    CliProgram TransactionSubmissionOutput := do
  let sender ← loadSenderContext P env
  let addressBytes ← CliProgram.check (decodeHexVec "address" address)
  let method := Text.trim method.toList
  CliProgram.check (ensure (method ≠ []) .emptyMethod)
  CliProgram.check (ensure (gasLimit ≠ 0) .zeroGasLimit)
  let params ← CliProgram.check ((normalizeJson params).okOr .invalidParams)
  let payload : ContractCallPayload := ⟨String.ofList method, params, gasLimit⟩
  submitTransaction P env sender {
    txType := .callContract
    recipient := addressBytes
    amount := 0
    data := some (serialize payload) }

/-- Without a key the faucet is disabled. It checks the address before it asks for its own
balance. -/
def submitFaucetTransfer (env : CliEnvironment) (recipientAddress : String) (amount : UInt64)
    (sourceShard destinationShard : UInt16) : CliProgram TransactionSubmissionOutput := do
  let _ ← CliProgram.check env.secretKey
  let recipient ← CliProgram.check (decodeHexVec "address" recipientAddress)
  CliProgram.check (ensure (recipient.length = 32) .addressLength)
  let sender ← loadSenderContext P env
  submitTransaction P env sender {
    txType := .transfer
    recipient
    amount
    sourceShard
    destinationShard
    data := none }

/-! ## What they have in common -/

/-- The commands with their arguments. -/
inductive Command where
  | send (recipient : String) (amount : UInt64) (anon : Bool)
      (sourceShard destinationShard : UInt16)
  | stake (amount duration : UInt64)
  | unstake
  | createContract (wasmFile : Option Bytes)
  | callContract (address method params : String) (gasLimit : UInt64)
  | faucet (recipientAddress : String) (amount : UInt64) (sourceShard destinationShard : UInt16)

variable (normalizeJson : String → Option Bytes) (env : CliEnvironment)

def Command.program : Command → CliProgram TransactionSubmissionOutput
  | .send recipient amount anon sourceShard destinationShard =>
    sendCommand P env recipient amount anon sourceShard destinationShard
  | .stake amount duration => stakeCommand P env amount duration
  | .unstake => unstakeCommand P env
  | .createContract wasmFile => createContractCommand P env wasmFile
  | .callContract address method params gasLimit =>
    callContractCommand P normalizeJson env address method params gasLimit
  | .faucet recipientAddress amount sourceShard destinationShard =>
    submitFaucetTransfer P env recipientAddress amount sourceShard destinationShard

/-- The recipient of a transfer of the faucet. -/
def faucetRecipient (recipientAddress : String) : Except CliError Bytes := do
  let recipient ← decodeHexVec "address" recipientAddress
  ensure (recipient.length = 32) .addressLength
  return recipient

/-- The key, when the command gets as far as asking for the balance. -/
def Command.key : Command → Except CliError Bytes32
  | .faucet recipientAddress _ _ _ => do
    let secretKey ← env.secretKey
    let _ ← faucetRecipient recipientAddress
    return secretKey
  | _ => env.secretKey

/-- What a command puts in its transaction. -/
def Command.draft (publicKey : Bytes32) : Command → Except CliError Draft
  | .send recipient amount anon sourceShard destinationShard => do
    let recipient ← decodeHexVec "to" recipient
    let txType := if anon then TransactionType.publicToAnon else .transfer
    let data := if anon then utf8 "prims-cli-send-anon" else utf8 "prims-cli-send"
    return { txType, recipient, amount, sourceShard, destinationShard, data := some data }
  | .stake amount duration => return {
    txType := .stake duration
    recipient := publicKey.toList
    amount
    data := some (utf8 ("prims-cli-stake:" ++ toString duration.toNat)) }
  | .unstake => return {
    txType := .unstake
    recipient := publicKey.toList
    amount := 0
    data := some (utf8 "prims-cli-unstake") }
  | .createContract wasmFile => do
    let codeWasm ← wasmFile.okOr .unreadableWasmFile
    ensure (codeWasm ≠ []) .emptyWasmFile
    return {
      txType := .deployContract
      recipient := (deriveContractAddress P publicKey.toList codeWasm).toList
      amount := 0
      data := some codeWasm }
  | .callContract address method params gasLimit => do
    let addressBytes ← decodeHexVec "address" address
    let method := Text.trim method.toList
    ensure (method ≠ []) .emptyMethod
    ensure (gasLimit ≠ 0) .zeroGasLimit
    let params ← (normalizeJson params).okOr .invalidParams
    let payload : ContractCallPayload := ⟨String.ofList method, params, gasLimit⟩
    return {
      txType := .callContract
      recipient := addressBytes
      amount := 0
      data := some (serialize payload) }
  | .faucet recipientAddress amount sourceShard destinationShard => do
    let recipient ← faucetRecipient recipientAddress
    return {
      txType := .transfer
      recipient
      amount
      sourceShard
      destinationShard
      data := none }

/-- What a command prints about its transaction. -/
def Draft.output (draft : Draft) (transaction : Transaction)
    (response : RpcSendTransactionResponse) : TransactionSubmissionOutput where
  rpcUrl := env.rpcUrl
  sender := encodeHex transaction.sender
  recipient := encodeHex draft.recipient
  txType := (transactionTypeParts draft.txType).1
  stakeDuration := (transactionTypeParts draft.txType).2
  amount := draft.amount
  fee := fixedTransactionFee
  nonce := transaction.nonce
  sourceShard := draft.sourceShard
  destinationShard := draft.destinationShard
  accepted := response.accepted
  txHash := response.txHash
  mempoolSize := response.mempoolSize

/-- What is left of a command when it has its nonce. -/
def submission (draft : Draft) (transaction : Transaction) :
    CliProgram TransactionSubmissionOutput :=
  .ask (.sendTransaction (encodeHex (serialize transaction))) fun reply =>
    .done ((reply.result RpcReply.getSubmission).map (draft.output env transaction))

/-- What is left of a command when it has the reply about the balance. -/
def Command.afterBalance (command : Command) (secretKey : Bytes32) (reply : RpcReply) :
    CliProgram TransactionSubmissionOutput :=
  match reply.result RpcReply.getBalance with
  | .error e => .done (.error e)
  | .ok balance =>
    match command.draft P normalizeJson (P.publicKey secretKey) with
    | .error e => .done (.error e)
    | .ok draft =>
      submission env draft
        (draft.transaction P secretKey (balance.nonce.saturatingAdd 1))

variable {P} {normalizeJson} {env} {α β : Type}

theorem check_bind (x : Except CliError α) (f : α → CliProgram β) :
    (CliProgram.check x >>= f) = match x with
      | .ok a => f a
      | .error e => Interaction.done (.error e) := by
  cases x <;> rfl

theorem rpcCall_bind (expected : RpcReply → Option α) (request : RpcRequest)
    (f : α → CliProgram β) :
    (rpcCall expected request >>= f) = Interaction.ask request fun reply =>
      match reply.result expected with
      | .ok a => f a
      | .error e => Interaction.done (.error e) := by
  refine congrArg (Interaction.ask request) (funext fun reply => ?_)
  show (CliProgram.check (reply.result expected) >>= f) = _
  cases reply.result expected <;> rfl

theorem submitTransaction_eq (secretKey : Bytes32) (nonce : UInt64) (draft : Draft) :
    submitTransaction P env ⟨secretKey, P.publicKey secretKey,
        encodeHex (P.publicKey secretKey).toList, nonce⟩ draft =
      submission env draft (draft.transaction P secretKey nonce) := by
  rw [submitTransaction, rpcCall_bind, submission]
  refine congrArg (Interaction.ask _) (funext fun reply => ?_)
  cases reply.result RpcReply.getSubmission <;> rfl

/-- The rest of a command goes on with its key and the nonce after the one of the account. -/
theorem loadSenderContext_bind (f : SenderContext → CliProgram β) :
    (loadSenderContext P env >>= f) = match env.secretKey with
      | .error e => Interaction.done (.error e)
      | .ok secretKey =>
        .ask (.getBalance (encodeHex (P.publicKey secretKey).toList)) fun reply =>
          match reply.result RpcReply.getBalance with
          | .error e => Interaction.done (.error e)
          | .ok balance =>
            f ⟨secretKey, P.publicKey secretKey, encodeHex (P.publicKey secretKey).toList,
              balance.nonce.saturatingAdd 1⟩ := by
  rw [loadSenderContext, bind_assoc, check_bind]
  cases env.secretKey with
  | error e => rfl
  | ok secretKey =>
    dsimp only
    rw [bind_assoc, rpcCall_bind]
    refine congrArg (Interaction.ask _) (funext fun reply => ?_)
    cases reply.result RpcReply.getBalance <;> rfl

/-- A command that makes its draft after it has its nonce. -/
theorem program_eq_of_draft (command : Command)
    {program : SenderContext → CliProgram TransactionSubmissionOutput}
    (hprogram : ∀ sender, program sender =
      CliProgram.check (command.draft P normalizeJson sender.publicKey) >>=
        submitTransaction P env sender) :
    (loadSenderContext P env >>= program) = match env.secretKey with
      | .error e => Interaction.done (.error e)
      | .ok secretKey =>
        .ask (.getBalance (encodeHex (P.publicKey secretKey).toList))
          (command.afterBalance P normalizeJson env secretKey) := by
  rw [loadSenderContext_bind]
  cases env.secretKey with
  | error e => rfl
  | ok secretKey =>
    refine congrArg (Interaction.ask _) (funext fun reply => ?_)
    rw [Command.afterBalance]
    cases reply.result RpcReply.getBalance with
    | error e => rfl
    | ok balance =>
      dsimp only
      rw [hprogram, check_bind]
      cases command.draft P normalizeJson (P.publicKey secretKey) with
      | error e => rfl
      | ok draft => exact submitTransaction_eq secretKey _ draft

/-- Checks of the client, one after the other. -/
theorem check_bind_bind {γ : Type} (x : Except CliError α) (f : α → Except CliError β)
    (g : β → CliProgram γ) :
    (CliProgram.check (x >>= f) >>= g) =
      CliProgram.check x >>= fun a => CliProgram.check (f a) >>= g := by
  cases x <;> rfl

/-- **Every command** asks for the balance of its sender, makes a draft and submits it. -/
theorem Command.program_eq (command : Command) :
    command.program P normalizeJson env = match command.key env with
      | .error e => Interaction.done (.error e)
      | .ok secretKey =>
        .ask (.getBalance (encodeHex (P.publicKey secretKey).toList))
          (command.afterBalance P normalizeJson env secretKey) := by
  cases command with
  | send recipient amount anon sourceShard destinationShard =>
    refine program_eq_of_draft (.send recipient amount anon sourceShard destinationShard)
      fun sender => ?_
    simp only [draft, check_bind_bind]
    rfl
  | stake amount duration => exact program_eq_of_draft (.stake amount duration) fun sender => rfl
  | unstake => exact program_eq_of_draft .unstake fun sender => rfl
  | createContract wasmFile =>
    refine program_eq_of_draft (.createContract wasmFile) fun sender => ?_
    simp only [draft, check_bind_bind]
    rfl
  | callContract address method params gasLimit =>
    refine program_eq_of_draft (.callContract address method params gasLimit) fun sender => ?_
    simp only [draft, check_bind_bind]
    rfl
  | faucet recipientAddress amount sourceShard destinationShard =>
    show submitFaucetTransfer P env recipientAddress amount sourceShard destinationShard = _
    have hchecks : submitFaucetTransfer P env recipientAddress amount sourceShard
        destinationShard =
          CliProgram.check env.secretKey >>= fun _ =>
            CliProgram.check (faucetRecipient recipientAddress) >>= fun recipient =>
              loadSenderContext P env >>= fun sender => submitTransaction P env sender
                { txType := .transfer, recipient, amount, sourceShard, destinationShard,
                  data := none } := by
      simp only [faucetRecipient, check_bind_bind]
      rfl
    rw [hchecks, check_bind, Command.key]
    cases hkey : env.secretKey with
    | error e => rfl
    | ok secretKey =>
      cases hrecipient : faucetRecipient recipientAddress with
      | error e => rfl
      | ok recipient =>
        have hdraft : ∀ sender : SenderContext, submitTransaction P env sender
            { txType := .transfer, recipient, amount, sourceShard, destinationShard,
              data := none } =
            CliProgram.check ((faucet recipientAddress amount sourceShard
              destinationShard).draft P normalizeJson sender.publicKey) >>=
                submitTransaction P env sender := by
          intro sender
          rw [draft, hrecipient]
          rfl
        refine (program_eq_of_draft _ hdraft).trans ?_
        rw [hkey]
        rfl

end Commands

end Prims
