import Prims.Storage.Backend

/-!
# Contracts in the store

Two results about contract storage. A write to the slots of one contract leaves the slots and the
root of another one alone, unless one address is the other followed by a colon and more: the keys
of the slots put the address, a colon and the slot one after the other, and nothing says where the
address ends. Addresses that `deploy_contract` gives have one length, so they never overlap.

Over whole runs of deployments and writes, the store stays consistent: every contract has the root
of its slots, the code it was deployed with and an account with the digest of the code.

## Main definitions

* `deployContract`: a new contract with its account
* `ContractWrite`: the two ways to write to the slots of a contract
* `ContractRun`: a store with the deployments that led to it
* `ContractRun.Consistent`: the invariant of the runs

## Main results

* `contract_isolated_iff`: writes to one contract leave another one alone if and only if the
  addresses do not overlap
* `contract_runs_consistent`: the invariant holds after every run
-/

namespace Prims

open Bincode ByteMap

section Contracts

variable (P : Primitives)

/-! ## Isolation -/

/-- The writes to the slots of a contract. -/
inductive ContractWrite where
  | set (key value : Bytes)
  | commit (writes : ByteMap)

def ContractWrite.action (address : Bytes) : ContractWrite → StorageM Unit
  | .set key value => setContractStorage P address key value
  | .commit writes => commitContractStorageBatch P address writes

/-- The contract has the root of its slots. -/
def RootConsistent (db : Db) (address : Bytes) : Prop :=
  ∃ contract, getContract db address = .ok (some contract) ∧
    contract.storageRoot = (computeContractStorageRoot P db address).toList

/-- Nothing that belongs to a contract changed: its slots read the same, and if its root was right
it still is. -/
def Untouched (address : Bytes) (before after : Db) : Prop :=
  (∀ k, getContractStorage after address k = getContractStorage before address k) ∧
    (RootConsistent P before address → RootConsistent P after address)

variable {P}

/-- A write to a contract changes its slots and its record only. -/
theorem confined_contractWrite (address : Bytes) (write : ContractWrite) :
    Confined (fun key => key = contractKey address ∨ ∃ k, key = contractStorageKey address k)
      (write.action P address) := by
  cases write with
  | set key value =>
    refine (confined_read _).bind fun contract => ?_
    refine (confined_put (.inr ⟨key, rfl⟩) value).bind fun _ => ?_
    refine (confined_read _).bind fun storageRoot => ?_
    exact confined_put (.inl rfl) _
  | commit writes =>
    show Confined _ (commitContractStorageBatch P address writes)
    unfold commitContractStorageBatch
    split
    · exact confined_pure ()
    · refine (confined_read _).bind fun contract => ?_
      refine (confined_read _).bind fun slotEntries => ?_
      apply confined_writeBatch
      intro e he
      rcases List.mem_append.mp he with he | he
      · obtain ⟨e', -, rfl⟩ := List.mem_map.mp he
        exact .inr ⟨e'.1, rfl⟩
      · rw [List.mem_singleton] at he
        exact .inl (he ▸ rfl)

/-- A store that agrees on the record and the slots of a contract agrees on the contract. -/
theorem untouched_of_entries {address : Bytes} {before after : Db}
    (hrecord : after.entries[contractKey address]? = before.entries[contractKey address]?)
    (hslots : ∀ k, after.entries[contractStorageKey address k]? =
      before.entries[contractStorageKey address k]?) :
    Untouched P address before after := by
  have hcontract : getContract after address = getContract before address :=
    getRecord_congr hrecord
  have hmap : after.entries.slots (contractStoragePrefix address) =
      before.entries.slots (contractStoragePrefix address) := by
    apply Std.ExtTreeMap.ext_getElem?
    intro k
    rw [getElem?_slots, getElem?_slots]
    exact hslots k
  refine ⟨fun k => ?_, ?_⟩
  · rw [getContractStorage, getContractStorage, requireContract, requireContract, hcontract,
      hslots]
  · rintro ⟨contract, hfound, hroot⟩
    refine ⟨contract, hcontract.trans hfound, ?_⟩
    rw [hroot, computeContractStorageRoot_eq, computeContractStorageRoot_eq, hmap]

/-- Writes leave a contract alone whose address does not overlap, whatever the backend does. -/
theorem untouched_of_not_overlap {a b : Bytes} (hne : a ≠ b) (h : ¬ AddressesOverlap a b)
    (write : ContractWrite) (db : Db) : Untouched P b db ((write.action P a).run db).2 := by
  have hconfined := confined_contractWrite (P := P) a write db
  apply untouched_of_entries
  · apply hconfined
    rintro (heq | ⟨k, heq⟩)
    · exact hne (contractKey_injective heq).symm
    · exact contractStorageKey_ne_contractKey a k b heq.symm
  · intro k
    apply hconfined
    rintro (heq | ⟨k', heq⟩)
    · exact contractStorageKey_ne_contractKey b k a heq
    · exact contractStorageKey_ne_of_not_overlap hne h k k' heq

/-- A write to a slot of one contract is read in the slot of another one that has the same key. -/
theorem getContractStorage_set {db : Db} {a b : Bytes} {contract contract' : Contract}
    (ha : requireContract db a = .ok contract) (hb : requireContract db b = .ok contract')
    (hne : a ≠ b) (hwrites : db.writesLeft = none) {k k' : Bytes}
    (hkeys : contractStorageKey b k = contractStorageKey a k') (value : Bytes) :
    getContractStorage (((ContractWrite.set k' value).action P a).run db).2 b k =
      .ok (some value) := by
  have hrun : ((ContractWrite.set k' value).action P a).run db = _ :=
    setContractStorage_run ha hwrites k' value
  have hrecord : requireContract (((ContractWrite.set k' value).action P a).run db).2 b =
      .ok contract' := by
    have hentries := confined_contractWrite (P := P) a (.set k' value) db (contractKey b) (by
      rintro (heq | ⟨k, heq⟩)
      · exact hne (contractKey_injective heq).symm
      · exact contractStorageKey_ne_contractKey a k b heq.symm)
    rw [requireContract, getContract, Db.getRecord, hentries]
    exact hb
  rw [getContractStorage, hrecord, hrun, hkeys]
  show Except.ok (committed P db.entries a contract [(k', value)])[contractStorageKey a k']? = _
  rw [getElem?_committed_slot]
  simp [lastWrite]

theorem AddressesOverlap.exists_keys {a b : Bytes} (h : AddressesOverlap a b) :
    ∃ k k', contractStorageKey b k = contractStorageKey a k' := by
  rcases h with ⟨x, rfl⟩ | ⟨x, rfl⟩
  · exact ⟨[], x ++ utf8 ":", by simp [contractStorageKey, contractStoragePrefix, prefixedKey]⟩
  · exact ⟨x ++ utf8 ":", [], by simp [contractStorageKey, contractStoragePrefix, prefixedKey]⟩

/-- **Isolation**: every write to the slots of `a` leaves the contract `b` alone, if and only if
neither address is the other one followed by a colon and more. -/
theorem contract_isolated_iff (P : Primitives) {db : Db} {a b : Bytes}
    {contract contract' : Contract} (hne : a ≠ b) (ha : requireContract db a = .ok contract)
    (hb : requireContract db b = .ok contract') (hwrites : db.writesLeft = none) :
    (∀ write : ContractWrite, Untouched P b db ((write.action P a).run db).2) ↔
      ¬ AddressesOverlap a b := by
  constructor
  · intro huntouched hoverlap
    obtain ⟨k, k', hkeys⟩ := hoverlap.exists_keys
    have hafter := getContractStorage_set (P := P) ha hb hne hwrites hkeys
      ((db.entries[contractStorageKey b k]?).getD [] ++ [0])
    rw [(huntouched _).1 k, getContractStorage, hb] at hafter
    have hbefore : db.entries[contractStorageKey b k]? =
      some ((db.entries[contractStorageKey b k]?).getD [] ++ [0]) := Except.ok.inj hafter
    generalize db.entries[contractStorageKey b k]? = current at hbefore
    cases current with
    | none => cases hbefore
    | some value => simp at hbefore
  · intro h write
    exact untouched_of_not_overlap hne h write db

end Contracts

/-! ## An example of overlapping addresses -/

def colonContract : Contract := ⟨[0], []⟩

/-- Two contracts, at `contract-1` and `contract-1:x`. -/
def colonDb : Db where
  entries := writeAll ∅ [(contractKey (utf8 "contract-1"), serialize colonContract),
    (contractKey (utf8 "contract-1:x"), serialize colonContract)]

theorem requireContract_colonDb :
    requireContract colonDb (utf8 "contract-1") = .ok colonContract ∧
      requireContract colonDb (utf8 "contract-1:x") = .ok colonContract := by
  have hfits : Codec.Fits colonContract := Codec.fits_of_length (by decide)
  constructor
  · apply requireContract_of_entry hfits
    rw [colonDb, getElem?_writeAll]
    decide
  · apply requireContract_of_entry hfits
    rw [colonDb, getElem?_writeAll]
    decide

/-- **Two contracts that share a slot**: the slot `x:` of `contract-1` is the empty slot of
`contract-1:x`. -/
theorem colonDb_not_isolated :
    utf8 "contract-1" ≠ utf8 "contract-1:x" ∧
      requireContract colonDb (utf8 "contract-1") = .ok colonContract ∧
      requireContract colonDb (utf8 "contract-1:x") = .ok colonContract ∧
      getContractStorage colonDb (utf8 "contract-1:x") [] = .ok none ∧
      getContractStorage (((ContractWrite.set (utf8 "x:") [1]).action (.recorded [])
        (utf8 "contract-1")).run colonDb).2 (utf8 "contract-1:x") [] = .ok (some [1]) := by
  obtain ⟨ha, hb⟩ := requireContract_colonDb
  refine ⟨by decide, ha, hb, ?_, ?_⟩
  · rw [getContractStorage, hb]
    show Except.ok colonDb.entries[_]? = _
    rw [colonDb, getElem?_writeAll, Std.ExtTreeMap.getElem?_empty]
    decide
  · exact getContractStorage_set ha hb (by decide) rfl (by decide) [1]

theorem colonDb_isolated_iff :
    (∀ write : ContractWrite, Untouched (.recorded []) (utf8 "contract-1:x") colonDb
        ((write.action (.recorded []) (utf8 "contract-1")).run colonDb).2) ↔
      ¬ AddressesOverlap (utf8 "contract-1") (utf8 "contract-1:x") :=
  contract_isolated_iff (.recorded []) (by decide) requireContract_colonDb.1
    requireContract_colonDb.2 rfl

/-! ## Runs -/

section Runs

variable (P : Primitives)

def updateAccount (address : Bytes) (account : Account) : StorageM Unit :=
  put (accountKey address) (serialize account)

/-- The account of a new contract. -/
def contractAccount (codeWasm : Bytes) : Account where
  balance := 0
  nonce := 0
  codeHash := some (contractCodeHash P codeWasm).toList
  anonymousState := {}

theorem fits_contractAccount (codeWasm : Bytes) : Codec.Fits (contractAccount P codeWasm) := by
  have hlen : (contractCodeHash P codeWasm).toList.length < 2 ^ 64 := by
    rw [List.Vector.toList_length]
    decide
  refine ⟨trivial, trivial, ?_, ?_, ?_, ?_⟩
  · rintro digest ⟨⟩
    exact ⟨hlen, fun _ _ => trivial⟩
  · rintro hint ⟨⟩
  · exact Nat.two_pow_pos 64
  · rintro commitment ⟨⟩

/-- Whether there is an account or a contract at the address. -/
def addressTaken (db : Db) (address : Bytes) : Except StorageError Bool := do
  let account ← getAccount db address
  if account.isSome then return true
  let contract ← getContract db address
  return contract.isSome

def deployContract (sender codeWasm : Bytes) : StorageM Bytes := do
  Procedure.lift (ensure (sender ≠ []) .emptySender)
  Procedure.lift (ensure (codeWasm ≠ []) .emptyBytecode)
  let contractAddress := (deriveContractAddress P sender codeWasm).toList
  let taken ← Procedure.read fun db => addressTaken db contractAddress
  Procedure.lift (ensure (taken = false) .contractAddressAlreadyExists)
  updateContract contractAddress ⟨codeWasm, (P.sha256 []).toList⟩
  updateAccount contractAddress (contractAccount P codeWasm)
  return contractAddress

/-- The calls of a run. The length of the code is a machine word. -/
inductive ContractCall where
  | deploy (sender codeWasm : Bytes) (hcode : codeWasm.length < 2 ^ 64)
  | write (address : Bytes) (write : ContractWrite)

/-- A store, with the addresses that successful deployments returned and the code they were given,
in order. -/
structure ContractRun where
  db : Db := {}
  deployed : List (Bytes × Bytes) := []

/-- One call; a failed one is a call as well. -/
def ContractRun.step (r : ContractRun) : ContractCall → ContractRun
  | .deploy sender codeWasm _ =>
    match (deployContract P sender codeWasm).run r.db with
    | (.ok address, db) => ⟨db, r.deployed ++ [(address, codeWasm)]⟩
    | (.error _, db) => { r with db }
  | .write address write => { r with db := ((write.action P address).run r.db).2 }

namespace ContractRun

/-- The deployments that returned an address. -/
def deploymentsOf (r : ContractRun) (address : Bytes) : List (Bytes × Bytes) :=
  r.deployed.filter fun d => d.1 = address

/-- Nothing is at the address. -/
structure Free (r : ContractRun) (address : Bytes) : Prop where
  record : r.db.entries[contractKey address]? = none
  account : r.db.entries[accountKey address]? = none
  slots : address.length = 32 → ∀ k, r.db.entries[contractStorageKey address k]? = none
  deployed : r.deploymentsOf address = []

/-- The address holds the contract that was deployed there, with the root of its slots. -/
structure Holds (r : ContractRun) (address codeWasm : Bytes) : Prop where
  length : address.length = 32
  fits : codeWasm.length < 2 ^ 64
  record : r.db.entries[contractKey address]? = some (serialize (⟨codeWasm,
    (storageRootOf P (r.db.entries.slots (contractStoragePrefix address))).toList⟩ : Contract))
  account : r.db.entries[accountKey address]? = some (serialize (contractAccount P codeWasm))
  deployed : r.deploymentsOf address = [(address, codeWasm)]

/-- **The invariant of the runs.** -/
structure Consistent (r : ContractRun) : Prop where
  writesLeft : r.db.writesLeft = none
  contracts : ∀ address, r.Free address ∨ ∃ codeWasm, r.Holds P address codeWasm

end ContractRun

variable {P}

/-- A write to a contract does nothing, or it commits slots to a contract that exists. -/
theorem contractWrite_cases {db : Db} (hwrites : db.writesLeft = none) (address : Bytes)
    (write : ContractWrite) :
    ((write.action P address).run db).2 = db ∨
      ∃ contract writes, requireContract db address = .ok contract ∧
        ((write.action P address).run db).2 =
          ⟨committed P db.entries address contract writes, none⟩ := by
  cases write with
  | set key value =>
    show ((setContractStorage P address key value).run db).2 = db ∨ _
    cases hcontract : requireContract db address with
    | error e => exact .inl (setContractStorage_run_missing hcontract key value)
    | ok contract =>
      refine .inr ⟨contract, [(key, value)], rfl, ?_⟩
      show ((setContractStorage P address key value).run db).2 = _
      rw [setContractStorage_run hcontract hwrites]
  | commit writes =>
    show ((commitContractStorageBatch P address writes).run db).2 = db ∨ _
    by_cases hempty : writes = ∅
    · refine .inl ?_
      rw [hempty]
      rfl
    · cases hcontract : requireContract db address with
      | error e => exact .inl (commitContractStorageBatch_run_missing hcontract writes)
      | ok contract =>
        refine .inr ⟨contract, writes.toList, rfl, ?_⟩
        show ((commitContractStorageBatch P address writes).run db).2 = _
        rw [commitContractStorageBatch_run hcontract hempty, Db.write_run hwrites]

theorem addressTaken_eq_false {db : Db} {address : Bytes}
    (h : addressTaken db address = .ok false) :
    db.entries[accountKey address]? = none ∧ db.entries[contractKey address]? = none := by
  unfold addressTaken at h
  rw [Except.bind_eq_ok] at h
  obtain ⟨account, haccount, h⟩ := h
  cases account with
  | some account => cases h
  | none =>
    -- the contract is looked up only when there is no account
    rw [if_neg (by simp), Except.bind_eq_ok] at h
    obtain ⟨contract, hcontract, h⟩ := h
    cases contract with
    | some contract => cases h
    | none => exact ⟨getRecord_eq_none.mp haccount, getRecord_eq_none.mp hcontract⟩

theorem addressTaken_ne_backend (db : Db) (address : Bytes) :
    addressTaken db address ≠ .error .backend := by
  have haccount := getRecord_ne_backend (α := Account) db (accountKey address)
  have hcontract := getRecord_ne_backend (α := Contract) db (contractKey address)
  unfold addressTaken getAccount getContract
  generalize db.getRecord (α := Account) (accountKey address) = account at haccount
  generalize db.getRecord (α := Contract) (contractKey address) = contract at hcontract
  intro h
  rcases account with e | (_ | account)
  · cases h
    exact haccount rfl
  · rcases contract with e | contract
    · cases h
      exact hcontract rfl
    · cases h
  · cases h

/-- A deployment fails a check and changes nothing, or it finds the address free and goes on to
write the contract and its account. -/
theorem deployContract_run_cases (db : Db) (sender codeWasm : Bytes) :
    let address := (deriveContractAddress P sender codeWasm).toList
    (∃ e, e ≠ .backend ∧ (deployContract P sender codeWasm).run db = (.error e, db)) ∨
      addressTaken db address = .ok false ∧
        (deployContract P sender codeWasm).run db =
          (put (contractKey address) (serialize (⟨codeWasm, (P.sha256 []).toList⟩ : Contract)) >>=
            fun _ => put (accountKey address) (serialize (contractAccount P codeWasm)) >>=
            fun _ => pure address).run db := by
  intro address
  rw [deployContract, Procedure.ensure_bind_run]
  split
  · rw [Procedure.ensure_bind_run]
    split
    · rw [Procedure.read_bind_run]
      cases htaken : addressTaken db (deriveContractAddress P sender codeWasm).toList with
      | error e =>
        refine .inl ⟨e, ?_, rfl⟩
        rintro rfl
        exact addressTaken_ne_backend _ _ htaken
      | ok taken =>
        dsimp only
        rw [Procedure.ensure_bind_run]
        split
        · next hfree =>
          subst hfree
          exact .inr ⟨rfl, rfl⟩
        · exact .inl ⟨_, by decide, rfl⟩
    · exact .inl ⟨_, by decide, rfl⟩
  · exact .inl ⟨_, by decide, rfl⟩

/-- When the backend accepts all writes, a deployment fails and changes nothing, or it finds the
address free and writes the contract and its account. -/
theorem deployContract_cases {db : Db} (hwrites : db.writesLeft = none) (sender codeWasm : Bytes) :
    let address := (deriveContractAddress P sender codeWasm).toList
    (∃ e, (deployContract P sender codeWasm).run db = (.error e, db)) ∨
      db.entries[accountKey address]? = none ∧ db.entries[contractKey address]? = none ∧
        (deployContract P sender codeWasm).run db = (.ok address,
          ⟨(db.entries.insert (contractKey address)
              (serialize (⟨codeWasm, (P.sha256 []).toList⟩ : Contract))).insert
            (accountKey address) (serialize (contractAccount P codeWasm)), none⟩) := by
  intro address
  rcases deployContract_run_cases (P := P) db sender codeWasm with ⟨e, -, hrun⟩ | ⟨hfree, hrun⟩
  · exact .inl ⟨e, hrun⟩
  · obtain ⟨haccount, hcontract⟩ := addressTaken_eq_false hfree
    refine .inr ⟨haccount, hcontract, ?_⟩
    rw [hrun, put, Procedure.bind_run_ok (Db.write_run hwrites), put,
      Procedure.bind_run_ok (Db.write_run rfl)]
    rfl

/-- What a deployment leaves, from whether its address is taken. -/
theorem deployContract_run_snd {db : Db} (hwrites : db.writesLeft = none) (sender codeWasm : Bytes)
    {taken : Bool}
    (htaken : addressTaken db (deriveContractAddress P sender codeWasm).toList = .ok taken) :
    let address := (deriveContractAddress P sender codeWasm).toList
    ((deployContract P sender codeWasm).run db).2 =
      if sender ≠ [] ∧ codeWasm ≠ [] ∧ taken = false then
        ⟨(db.entries.insert (contractKey address)
            (serialize (⟨codeWasm, (P.sha256 []).toList⟩ : Contract))).insert
          (accountKey address) (serialize (contractAccount P codeWasm)), none⟩
      else db := by
  intro address
  rw [deployContract, Procedure.ensure_bind_run]
  by_cases hsender : sender ≠ []
  · rw [if_pos hsender, Procedure.ensure_bind_run]
    by_cases hcode : codeWasm ≠ []
    · rw [if_pos hcode, Procedure.read_bind_run, htaken]
      dsimp only
      rw [Procedure.ensure_bind_run]
      by_cases hfree : taken = false
      · rw [if_pos hfree, if_pos ⟨hsender, hcode, hfree⟩, updateContract, put,
          Procedure.bind_run_ok (Db.write_run hwrites), updateAccount, put,
          Procedure.bind_run_ok (Db.write_run rfl)]
        rfl
      · rw [if_neg hfree, if_neg fun h => hfree h.2.2]
    · rw [if_neg hcode, if_neg fun h => hcode h.2.1]
  · rw [if_neg hsender, if_neg fun h => hsender h.1]

namespace ContractRun

variable {r r' : ContractRun} {address : Bytes}

/-- An address is as it was when its record, its account, its slots and its deployments are. -/
theorem contracts_frame
    (h : r.Free address ∨ ∃ codeWasm, r.Holds P address codeWasm)
    (hrecord : r'.db.entries[contractKey address]? = r.db.entries[contractKey address]?)
    (haccount : r'.db.entries[accountKey address]? = r.db.entries[accountKey address]?)
    (hslots : address.length = 32 → ∀ k, r'.db.entries[contractStorageKey address k]? =
      r.db.entries[contractStorageKey address k]?)
    (hdeployed : r'.deploymentsOf address = r.deploymentsOf address) :
    r'.Free address ∨ ∃ codeWasm, r'.Holds P address codeWasm := by
  rcases h with hfree | ⟨codeWasm, hholds⟩
  · refine .inl ⟨hrecord.trans hfree.record, haccount.trans hfree.account, fun hlen k => ?_,
      hdeployed.trans hfree.deployed⟩
    rw [hslots hlen k, hfree.slots hlen k]
  · have hmap : r'.db.entries.slots (contractStoragePrefix address) =
        r.db.entries.slots (contractStoragePrefix address) := by
      apply Std.ExtTreeMap.ext_getElem?
      intro k
      rw [getElem?_slots, getElem?_slots]
      exact hslots hholds.length k
    refine .inr ⟨codeWasm, hholds.length, hholds.fits, ?_, haccount.trans hholds.account,
      hdeployed.trans hholds.deployed⟩
    rw [hrecord, hholds.record, hmap]

/-- The contract at an address is the one that was deployed there. -/
theorem Holds.getContract {codeWasm : Bytes} (h : r.Holds P address codeWasm) :
    Prims.getContract r.db address = .ok (some ⟨codeWasm,
      (computeContractStorageRoot P r.db address).toList⟩) := by
  apply getRecord_serialize (fits_contract h.fits _)
  rw [h.record, computeContractStorageRoot_eq]

theorem Holds.requireContract {codeWasm : Bytes} (h : r.Holds P address codeWasm) :
    Prims.requireContract r.db address = .ok ⟨codeWasm,
      (computeContractStorageRoot P r.db address).toList⟩ := by
  rw [Prims.requireContract, h.getContract]
  rfl

theorem Holds.getAccount {codeWasm : Bytes} (h : r.Holds P address codeWasm) :
    Prims.getAccount r.db address = .ok (some (contractAccount P codeWasm)) :=
  getRecord_serialize (fits_contractAccount P codeWasm) h.account

theorem Free.requireContract (h : r.Free address) :
    Prims.requireContract r.db address = .error .contractDoesNotExist := by
  have hnone : getContract r.db address = .ok none := getRecord_eq_none.mpr h.record
  rw [Prims.requireContract, hnone]
  rfl

/-- A write to a contract keeps the invariant. -/
theorem Consistent.write (h : r.Consistent P) (address : Bytes) (write : ContractWrite) :
    (r.step P (.write address write)).Consistent P := by
  show ({ r with db := ((write.action P address).run r.db).2 } : ContractRun).Consistent P
  rcases contractWrite_cases (P := P) h.writesLeft address write with
    hsame | ⟨contract, writes, hcontract, hafter⟩
  · rw [hsame]
    exact h
  · rw [hafter]
    refine ⟨rfl, fun address' => ?_⟩
    by_cases heq : address' = address
    · subst heq
      rcases h.contracts address' with hfree | ⟨codeWasm, hholds⟩
      · rw [hfree.requireContract] at hcontract
        cases hcontract
      · rw [hholds.requireContract] at hcontract
        cases hcontract
        refine .inr ⟨codeWasm, hholds.length, hholds.fits, ?_, ?_, hholds.deployed⟩
        · exact getElem?_committed_contract r.db.entries address' _ writes
        · exact (getElem?_committed_account _ _ _ _ _).trans hholds.account
    · have hlength : address.length = 32 := by
        rcases h.contracts address with hfree | ⟨codeWasm, hholds⟩
        · rw [hfree.requireContract] at hcontract
          cases hcontract
        · exact hholds.length
      refine contracts_frame (h.contracts address') ?_ ?_ (fun hlen k => ?_) rfl
      · exact getElem?_committed_other _ _ _ _ (contractKey_injective.ne heq)
          fun k => (contractStorageKey_ne_contractKey _ k _).symm
      · exact getElem?_committed_account _ _ _ _ _
      · -- addresses of contracts have one length, so their slots are apart
        have hoverlap := not_overlap_of_length_eq (hlength.trans hlen.symm)
        exact getElem?_committed_other _ _ _ _ (contractStorageKey_ne_contractKey _ _ _)
          fun k' => contractStorageKey_ne_of_not_overlap (Ne.symm heq) hoverlap k k'

theorem deploymentsOf_append (db : Db) (d : Bytes × Bytes) (address : Bytes) :
    (⟨db, r.deployed ++ [d]⟩ : ContractRun).deploymentsOf address =
      r.deploymentsOf address ++ if d.1 = address then [d] else [] := by
  simp only [deploymentsOf, List.filter_append, List.filter_cons, List.filter_nil,
    decide_eq_true_eq]

/-- A contract without slots has the digest of the empty message as its root. -/
theorem storageRootOf_slots_of_none {entries : ByteMap} {address : Bytes}
    (h : ∀ k, entries[contractStorageKey address k]? = none) :
    storageRootOf P (entries.slots (contractStoragePrefix address)) = P.sha256 [] := by
  have hempty : entries.slots (contractStoragePrefix address) = ∅ := by
    apply Std.ExtTreeMap.ext_getElem?
    intro k
    rw [getElem?_slots, Std.ExtTreeMap.getElem?_empty]
    exact h k
  rw [hempty]
  rfl

/-- A deployment keeps the invariant. -/
theorem Consistent.deploy (h : r.Consistent P) (sender codeWasm : Bytes)
    (hcode : codeWasm.length < 2 ^ 64) :
    (r.step P (.deploy sender codeWasm hcode)).Consistent P := by
  rw [ContractRun.step]
  rcases deployContract_cases (P := P) h.writesLeft sender codeWasm with
    ⟨e, hfail⟩ | ⟨haccount, hcontract, hok⟩
  · rw [hfail]
    exact h
  · rw [hok]
    dsimp only
    generalize haddress : (deriveContractAddress P sender codeWasm).toList = address at *
    have hlength : address.length = 32 := by rw [← haddress, List.Vector.toList_length]
    have hother : ∀ key, key ≠ contractKey address → key ≠ accountKey address →
        ((r.db.entries.insert (contractKey address)
            (serialize (⟨codeWasm, (P.sha256 []).toList⟩ : Contract))).insert (accountKey address)
          (serialize (contractAccount P codeWasm)))[key]? = r.db.entries[key]? := by
      intro key hkey hkey'
      rw [getElem?_insert_eq, if_neg hkey'.symm, getElem?_insert_eq, if_neg hkey.symm]
    refine ⟨rfl, fun address' => ?_⟩
    by_cases heq : address' = address
    · subst heq
      rcases h.contracts address' with hfree | ⟨codeWasm', hholds⟩
      -- a free address has no slots, so the empty root that was written is the right one
      · refine .inr ⟨codeWasm, hlength, hcode, ?_, ?_, ?_⟩
        · rw [storageRootOf_slots_of_none, getElem?_insert_eq,
            if_neg (contractKey_ne_accountKey _ _).symm, getElem?_insert_eq, if_pos rfl]
          intro k
          rw [hother _ (contractStorageKey_ne_contractKey _ _ _)
            (contractStorageKey_ne_accountKey _ _ _), hfree.slots hlength]
        · rw [getElem?_insert_eq, if_pos rfl]
        · rw [deploymentsOf_append, hfree.deployed, if_pos rfl, List.nil_append]
      · rw [hholds.record] at hcontract
        cases hcontract
    · refine contracts_frame (h.contracts address') ?_ ?_ (fun _ k => ?_) ?_
      · exact hother _ (contractKey_injective.ne heq) (contractKey_ne_accountKey _ _)
      · exact hother _ (contractKey_ne_accountKey _ _).symm (accountKey_injective.ne heq)
      · exact hother _ (contractStorageKey_ne_contractKey _ _ _)
          (contractStorageKey_ne_accountKey _ _ _)
      · rw [deploymentsOf_append, if_neg (Ne.symm heq), List.append_nil]

theorem Consistent.step (h : r.Consistent P) (call : ContractCall) :
    (r.step P call).Consistent P := by
  cases call with
  | deploy sender codeWasm hcode => exact h.deploy sender codeWasm hcode
  | write address write => exact h.write address write

/-- Every run keeps the invariant. -/
theorem run_consistent (P : Primitives) (calls : List ContractCall) :
    (calls.foldl (ContractRun.step P) {}).Consistent P := by
  refine List.foldlRecOn calls _ ?_ fun r h call _ => h.step call
  refine ⟨rfl, fun address => .inl ⟨?_, ?_, fun _ k => ?_, rfl⟩⟩
  all_goals exact Std.ExtTreeMap.getElem?_empty

end ContractRun

end Runs

/-- **Contracts stay consistent.** After every run from the empty store, a contract has the root of
its slots, exactly one deployment returned its address and gave it its code, and its account has
the digest of the code. No slot is under an address of 32 bytes without a contract. -/
theorem contract_runs_consistent (P : Primitives) (calls : List ContractCall) (address : Bytes) :
    let r := calls.foldl (ContractRun.step P) {}
    (∃ found, getContract r.db address = .ok found) ∧
      (∀ contract, getContract r.db address = .ok (some contract) →
        contract.storageRoot = (computeContractStorageRoot P r.db address).toList ∧
          r.deploymentsOf address = [(address, contract.codeWasm)] ∧
          ∃ account, getAccount r.db address = .ok (some account) ∧
            account.codeHash = some (P.sha256 contract.codeWasm).toList) ∧
      (address.length = 32 → getContract r.db address = .ok none →
        ∀ k, r.db.entries[contractStorageKey address k]? = none) := by
  intro r
  have h : r.Consistent P := ContractRun.run_consistent P calls
  rcases h.contracts address with hfree | ⟨codeWasm, hholds⟩
  · have hnone : getContract r.db address = .ok none := getRecord_eq_none.mpr hfree.record
    refine ⟨⟨none, hnone⟩, fun contract hcontract => ?_, fun hlen _ => hfree.slots hlen⟩
    rw [hnone] at hcontract
    cases hcontract
  · have hfound := hholds.getContract
    refine ⟨⟨_, hfound⟩, fun contract hcontract => ?_, fun _ hnone => ?_⟩
    · rw [hfound] at hcontract
      cases hcontract
      exact ⟨rfl, hholds.deployed, _, hholds.getAccount, rfl⟩
    · rw [hfound] at hnone
      cases hnone

end Prims
