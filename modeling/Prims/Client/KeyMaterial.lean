import Prims.Client.Commands
import Prims.Privacy.SetupDirectory

/-!
# Secret keys in files and variables

Three programs read secret keys: the client and the faucet of the explorer read the key that signs
transactions, and a node reads the key of its network identity. A key is given in a file or in an
environment variable, as 64 hexadecimal digits or as a JSON object. The client also reads encrypted
files, and it generates keys and writes them in both forms.

## Main definitions

* `KeyFormats`: the JSON reader, and the encryption of files
* `parseKeyText`: the reader of plain keys, which the programs have in common
* `Cli.loadSecretKey`, `Explorer.loadFaucetConfig`, `loadNetworkIdentityKeypair`: the keys that the
  programs take from their environments
* `generateKeyCommand`: the command that generates a key

## Main results

* `key_readers_agree`: the programs read the same plain keys
* `generated_keys_are_read`: what the client writes is read back
-/

namespace Prims

open Bincode

/-- What the programs use of other packages: the fields of a JSON object that are strings, and files
that are encrypted with a passphrase. -/
structure KeyFormats where
  jsonFields : String → Option (String → Option String)
  encryptAndArmor : Bytes → String → Bytes → Option String
  decrypt : String → Bytes → Option Bytes

inductive KeyError where
  | emptyKey
  | invalidJson
  | missingField
  | invalidHex (label : String)
  | wrongLength (label : String)
  | notUtf8 (path : String)
  | unreadableFile (path : String)
  | unreadablePassphrase
  | emptyPassphrase
  | passphrasesDiffer
  | encryption
  | createFile (path : String)
  | writeFile (path : String)
  | decryption (path : String)
  | invalidPlaintext (path : String)
  | missingVariable
  | invalidNumber (name : String)
  deriving DecidableEq, Repr

/-! ## Plain keys -/

/-- All three programs decode the 32 bytes of a key in this way. -/
def decodeHex32 (label value : String) : Except KeyError Bytes32 := do
  let bytes ← (decodeHexVec label value).mapError fun _ => .invalidHex label
  (bytes.toVector? 32).okOr (.wrongLength label)

section Reading

variable (formats : KeyFormats)

/-- The key in one of two fields of an object. The first one is taken if it is a string. -/
def parseKeyObject (text : String) : Except KeyError Bytes32 := do
  let values ← (formats.jsonFields text).okOr .invalidJson
  match values "secret_key" with
  | some value => decodeHex32 "secret_key" value
  | none =>
    match values "secret_key_hex" with
    | some value => decodeHex32 "secret_key_hex" value
    | none => throw .missingField

/-- A key that is an object or digits. Errors about the digits have a label. -/
def parseKeyText (label text : String) : Except KeyError Bytes32 :=
  let trimmed := Text.trim text.toList
  if trimmed.head? = some '\x7b' then parseKeyObject formats (String.ofList trimmed)
  else decodeHex32 label (String.ofList trimmed)

/-- What the programs take from their environments: variables, files, and what is typed when a
passphrase is asked for. -/
structure KeyEnvironment where
  var : String → Option String
  files : String → Option Bytes
  passphrase : Option String

/-! ### The client -/

namespace Cli

def parseSecretKeyMaterial (text : String) : Except KeyError Bytes32 :=
  parseKeyText formats "secret_key" text

/-- The digits of a text, without `0x` or `0X` before them. -/
def normalizedHex (value : String) : List Char :=
  let trimmed := Text.trim value.toList
  ((['0', 'x'].isPrefixOf? trimmed).or (['0', 'X'].isPrefixOf? trimmed)).getD trimmed

def looksLikePlaintextHexSecret (value : String) : Bool :=
  let normalized := normalizedHex value
  !normalized.isEmpty && normalized.all Text.isHexDigit

/-- A file with this text is read without a passphrase. -/
def looksPlain (text : String) : Bool :=
  let trimmed := Text.trim text.toList
  trimmed.head? = some '\x7b' || looksLikePlaintextHexSecret (String.ofList trimmed)

def promptExistingPassphrase (passphrase : Option String) : Except KeyError String := do
  let password ← passphrase.okOr .unreadablePassphrase
  ensure (Text.trim password.toList ≠ []) .emptyPassphrase
  return password

def decryptSecretKeyFile (passphrase : Option String) (path : String) (ciphertext : Bytes) :
    Except KeyError Bytes32 := do
  let passphrase ← promptExistingPassphrase passphrase
  let plaintext ← (formats.decrypt passphrase ciphertext).okOr (.decryption path)
  let text ← (fromUtf8 plaintext).okOr (.invalidPlaintext path)
  parseSecretKeyMaterial formats text

def parseSecretKeyFileContents (passphrase : Option String) (path : String) (raw : Bytes) :
    Except KeyError Bytes32 :=
  match fromUtf8 raw with
  | some text =>
    if looksPlain text then parseSecretKeyMaterial formats text
    else decryptSecretKeyFile formats passphrase path raw
  | none => decryptSecretKeyFile formats passphrase path raw

def loadSecretKey (env : KeyEnvironment) : Except KeyError Bytes32 :=
  match env.var "PRIMS_SECRET_KEY_FILE" with
  | some path => do
    let raw ← (env.files path).okOr (.unreadableFile path)
    parseSecretKeyFileContents formats env.passphrase path raw
  | none =>
    match env.var "PRIMS_SECRET_KEY_HEX" with
    | some value => parseSecretKeyMaterial formats value
    | none => .error .missingVariable

end Cli

/-! ### The explorer -/

namespace Explorer

def parseSecretKeyMaterial (text : String) : Except KeyError Bytes32 := do
  ensure (Text.trim text.toList ≠ []) .emptyKey
  parseKeyText formats "secret_key" text

def parseSecretKeyFileContents (path : String) (raw : Bytes) : Except KeyError Bytes32 := do
  let text ← (fromUtf8 raw).okOr (.notUtf8 path)
  parseSecretKeyMaterial formats text

structure FaucetConfig where
  secretKey : Bytes32
  publicKey : Bytes32
  amount : UInt64
  sourceShard : UInt16
  destinationShard : UInt16

def faucetAmountFromEnv (env : KeyEnvironment) : Except KeyError UInt64 :=
  match env.var "PRIMS_FAUCET_AMOUNT" with
  | some raw => (Text.parseUInt64 raw.toList).okOr (.invalidNumber "PRIMS_FAUCET_AMOUNT")
  | none => .ok 100

/-- A number of 16 bits is written like one of 64 bits. -/
def shardFromEnv (env : KeyEnvironment) (name : String) : Except KeyError UInt16 :=
  match env.var name with
  | some raw => do
    let number ← (Text.parseUInt64 raw.toList).okOr (.invalidNumber name)
    ensure (number.toNat < 2 ^ 16) (.invalidNumber name)
    return number.toUInt16
  | none => .ok defaultShardId

/-- The key of the faucet, if there is one in the environment. -/
def loadKey (env : KeyEnvironment) : Except KeyError (Option Bytes32) :=
  match env.var "PRIMS_SECRET_KEY_FILE" with
  | some path => do
    let raw ← (env.files path).okOr (.unreadableFile path)
    let secretKey ← parseSecretKeyFileContents formats path raw
    return some secretKey
  | none =>
    match env.var "PRIMS_SECRET_KEY_HEX" with
    | some value => do
      let secretKey ← parseSecretKeyMaterial formats value
      return some secretKey
    | none => .ok none

variable (P : Primitives)

def loadFaucetConfig (env : KeyEnvironment) : Except KeyError (Option FaucetConfig) := do
  match ← loadKey formats env with
  | none => return none
  | some secretKey => do
    let amount ← faucetAmountFromEnv env
    let sourceShard ← shardFromEnv env "PRIMS_FAUCET_SOURCE_SHARD"
    let destinationShard ← shardFromEnv env "PRIMS_FAUCET_DESTINATION_SHARD"
    return some {
      secretKey
      publicKey := P.publicKey secretKey
      amount
      sourceShard
      destinationShard }

/-- A disabled faucet has an error to show, unless there is no key. -/
inductive FaucetMode where
  | disabled (reason : Option KeyError)
  | enabled (config : FaucetConfig)

def FaucetMode.fromEnv (env : KeyEnvironment) : FaucetMode :=
  match loadFaucetConfig formats P env with
  | .ok (some config) => .enabled config
  | .ok none => .disabled none
  | .error e => .disabled (some e)

/-- The amount that the pages show. -/
def FaucetMode.amount (env : KeyEnvironment) : FaucetMode → UInt64
  | .disabled _ => (faucetAmountFromEnv env).toOption.getD 100
  | .enabled config => config.amount

end Explorer

/-! ### The node -/

def parseNetworkSecretKeyFileContents (path : String) (raw : Bytes) : Except KeyError Bytes32 := do
  let text ← (fromUtf8 raw).okOr (.notUtf8 path)
  parseKeyText formats "PRIMS_NETWORK_SECRET_KEY_FILE" text

/-- Without a variable the key is a generated one. The variable with digits is not read as JSON. -/
def loadNetworkIdentityKeypair (env : KeyEnvironment) (generated : Bytes32) :
    Except KeyError Bytes32 :=
  match env.var "PRIMS_NETWORK_SECRET_KEY_FILE" with
  | some path => do
    let raw ← (env.files path).okOr (.unreadableFile path)
    parseNetworkSecretKeyFileContents formats path raw
  | none =>
    match env.var "PRIMS_NETWORK_SECRET_KEY_HEX" with
    | some value => decodeHex32 "PRIMS_NETWORK_SECRET_KEY_HEX" value
    | none => .ok generated

/-! ## What the readers accept -/

/-- **The text is the key in digits**, with white space around them and with `0x` or `0X` before
them. -/
def Spells (text : String) (key : Bytes32) : Prop :=
  ∃ start digits, start ∈ [[], ['0', 'x'], ['0', 'X']] ∧
    Text.trim text.toList = start ++ digits ∧ Text.hexDecode digits = some key.toList

/-- **The text is a plain key**: an object with the key in one of two fields, or the key in
digits. -/
def PlainKey (text : String) (key : Bytes32) : Prop :=
  ((Text.trim text.toList).head? = some '\x7b' ∧ ∃ values value,
    formats.jsonFields (String.ofList (Text.trim text.toList)) = some values ∧
      (values "secret_key").or (values "secret_key_hex") = some value ∧ Spells value key) ∨
    Spells text key

/-- The bytes are the text of a plain key. -/
def PlainKeyFile (raw : Bytes) (key : Bytes32) : Prop :=
  ∃ text, fromUtf8 raw = some text ∧ PlainKey formats text key

variable {formats}

/-- Where digits start, neither `0x` nor `0X` does. -/
theorem isPrefixOf?_eq_none_of_hexDecode {c : Char} (hc : c ∈ ['x', 'X']) {digits : List Char}
    {bytes : Bytes} (h : Text.hexDecode digits = some bytes) :
    ['0', c].isPrefixOf? digits = none := by
  cases hprefix : ['0', c].isPrefixOf? digits with
  | none => rfl
  | some rest =>
    rw [List.isPrefixOf?_eq_some_iff_append_eq] at hprefix
    have hdigit : Text.isHexDigit c := Text.isHexDigit_of_hexDecode h c (by rw [← hprefix]; simp)
    rcases List.mem_pair.mp hc with rfl | rfl <;> cases hdigit

theorem normalizedHex_of_spells {text : String} {start digits : List Char} {bytes : Bytes}
    (hstart : start ∈ [[], ['0', 'x'], ['0', 'X']])
    (htext : Text.trim text.toList = start ++ digits)
    (hdigits : Text.hexDecode digits = some bytes) : Cli.normalizedHex text = digits := by
  rw [Cli.normalizedHex, htext]
  simp only [List.mem_cons, List.not_mem_nil, or_false] at hstart
  rcases hstart with rfl | rfl | rfl
  · rw [List.nil_append, isPrefixOf?_eq_none_of_hexDecode (by simp) hdigits,
      isPrefixOf?_eq_none_of_hexDecode (by simp) hdigits]
    rfl
  · simp [List.isPrefixOf?]
  · simp [List.isPrefixOf?]

theorem exists_start_normalizedHex (text : String) : ∃ start ∈ [[], ['0', 'x'], ['0', 'X']],
    Text.trim text.toList = start ++ Cli.normalizedHex text := by
  rw [Cli.normalizedHex]
  cases hlower : ['0', 'x'].isPrefixOf? (Text.trim text.toList) with
  | some rest => exact ⟨_, by simp, (List.isPrefixOf?_eq_some_iff_append_eq.mp hlower).symm⟩
  | none =>
    cases hupper : ['0', 'X'].isPrefixOf? (Text.trim text.toList) with
    | some rest => exact ⟨_, by simp, (List.isPrefixOf?_eq_some_iff_append_eq.mp hupper).symm⟩
    | none => exact ⟨[], by simp, rfl⟩

theorem spells_iff {text : String} {key : Bytes32} :
    Spells text key ↔ Text.hexDecode (Cli.normalizedHex text) = some key.toList := by
  constructor
  · rintro ⟨start, digits, hstart, htext, hdigits⟩
    rw [normalizedHex_of_spells hstart htext hdigits]
    exact hdigits
  · intro h
    obtain ⟨start, hstart, htext⟩ := exists_start_normalizedHex text
    exact ⟨start, _, hstart, htext, h⟩

theorem decodeHex32_eq_ok {label text : String} {key : Bytes32} :
    decodeHex32 label text = .ok key ↔ Spells text key := by
  rw [spells_iff, decodeHex32, Except.bind_eq_ok]
  constructor
  · rintro ⟨bytes, hbytes, hkey⟩
    rw [Option.okOr_eq_ok, Bytes.toVector?_eq_some] at hkey
    rw [Except.mapError_eq_ok] at hbytes
    exact hkey ▸ Option.okOr_eq_ok.mp hbytes
  · intro h
    refine ⟨key.toList, Except.mapError_eq_ok.mpr (Option.okOr_eq_ok.mpr h), ?_⟩
    rw [Option.okOr_eq_ok, Bytes.toVector?_eq_some]

theorem spells_trim {text : String} {key : Bytes32} :
    Spells (String.ofList (Text.trim text.toList)) key ↔ Spells text key := by
  rw [Spells, String.toList_ofList, Text.trim_trim]
  rfl

/-- A key in digits is not empty, and it has no other characters. -/
theorem Spells.looksLikePlaintextHexSecret {text : String} {key : Bytes32} (h : Spells text key) :
    Cli.looksLikePlaintextHexSecret text := by
  rw [spells_iff] at h
  have hne : Cli.normalizedHex text ≠ [] := by
    intro hnil
    rw [hnil] at h
    have hlength : key.toList.length = 0 := by rw [← Option.some.inj h]; rfl
    rw [List.Vector.toList_length] at hlength
    cases hlength
  rw [Cli.looksLikePlaintextHexSecret, Bool.and_eq_true, List.all_eq_true]
  exact ⟨by simpa using hne, Text.isHexDigit_of_hexDecode h⟩

theorem Spells.head_ne {text : String} {key : Bytes32} (h : Spells text key) :
    (Text.trim text.toList).head? ≠ some '\x7b' := by
  obtain ⟨start, digits, hstart, htext, hdigits⟩ := h
  rw [htext]
  simp only [List.mem_cons, List.not_mem_nil, or_false] at hstart
  rcases hstart with rfl | rfl | rfl
  · intro hhead
    have hdigit := Text.isHexDigit_of_hexDecode hdigits _ (List.mem_of_mem_head? hhead)
    cases hdigit
  · simp
  · simp

theorem parseKeyObject_eq_ok {text : String} {key : Bytes32} :
    parseKeyObject formats text = .ok key ↔ ∃ values value, formats.jsonFields text = some values ∧
      (values "secret_key").or (values "secret_key_hex") = some value ∧ Spells value key := by
  rw [parseKeyObject, Except.bind_eq_ok]
  simp only [Option.okOr_eq_ok]
  refine exists_congr fun values => ?_
  cases values "secret_key" with
  | some value => simp [decodeHex32_eq_ok]
  | none => cases values "secret_key_hex" <;> simp [decodeHex32_eq_ok]

/-- Whatever the label is, the reader takes plain keys. -/
theorem parseKeyText_eq_ok {label text : String} {key : Bytes32} :
    parseKeyText formats label text = .ok key ↔ PlainKey formats text key := by
  rw [parseKeyText, PlainKey]
  split
  · next hhead =>
    rw [parseKeyObject_eq_ok, and_iff_right hhead]
    exact (or_iff_left fun h : Spells text key => h.head_ne hhead).symm
  · next hhead =>
    rw [decodeHex32_eq_ok, spells_trim]
    exact (or_iff_right fun h => hhead h.1).symm

theorem Explorer.parseSecretKeyMaterial_eq_ok {text : String} {key : Bytes32} :
    Explorer.parseSecretKeyMaterial formats text = .ok key ↔ PlainKey formats text key := by
  rw [Explorer.parseSecretKeyMaterial, ensure_bind_eq_ok, parseKeyText_eq_ok]
  refine and_iff_right_of_imp fun h hnil => ?_
  rcases h with ⟨hhead, -⟩ | hspells
  · rw [hnil] at hhead
    cases hhead
  · have hlooks := hspells.looksLikePlaintextHexSecret
    rw [Cli.looksLikePlaintextHexSecret, Cli.normalizedHex, hnil] at hlooks
    cases hlooks

theorem PlainKey.looksPlain {text : String} {key : Bytes32} (h : PlainKey formats text key) :
    Cli.looksPlain text := by
  rw [Cli.looksPlain, Bool.or_eq_true, decide_eq_true_eq]
  rcases h with ⟨hhead, -⟩ | hspells
  · exact .inl hhead
  · exact .inr (spells_trim.mpr hspells).looksLikePlaintextHexSecret

theorem Cli.decryptSecretKeyFile_eq_ok {passphrase : Option String} {path : String} {raw : Bytes}
    {key : Bytes32} : Cli.decryptSecretKeyFile formats passphrase path raw = .ok key ↔
      ∃ password plaintext, passphrase = some password ∧ Text.trim password.toList ≠ [] ∧
        formats.decrypt password raw = some plaintext ∧ PlainKeyFile formats plaintext key := by
  rw [Cli.decryptSecretKeyFile, Cli.promptExistingPassphrase]
  simp only [Except.bind_eq_ok, Option.okOr_eq_ok, ensure_eq_ok, PlainKeyFile,
    Cli.parseSecretKeyMaterial, parseKeyText_eq_ok]
  constructor
  · rintro ⟨password, ⟨_, hpassword, _, hne, ⟨⟩⟩, plaintext, hplaintext, hkey⟩
    exact ⟨_, plaintext, hpassword, hne, hplaintext, hkey⟩
  · rintro ⟨password, plaintext, hpassword, hne, hplaintext, hkey⟩
    exact ⟨password, ⟨password, hpassword, (), hne, rfl⟩, plaintext, hplaintext, hkey⟩

theorem Explorer.parseSecretKeyFileContents_eq_ok {path : String} {raw : Bytes} {key : Bytes32} :
    Explorer.parseSecretKeyFileContents formats path raw = .ok key ↔
      PlainKeyFile formats raw key := by
  simp only [Explorer.parseSecretKeyFileContents, Except.bind_eq_ok, Option.okOr_eq_ok,
    Explorer.parseSecretKeyMaterial_eq_ok, PlainKeyFile]

theorem parseNetworkSecretKeyFileContents_eq_ok {path : String} {raw : Bytes} {key : Bytes32} :
    parseNetworkSecretKeyFileContents formats path raw = .ok key ↔
      PlainKeyFile formats raw key := by
  simp only [parseNetworkSecretKeyFileContents, Except.bind_eq_ok, Option.okOr_eq_ok,
    parseKeyText_eq_ok, PlainKeyFile]

/-- The client reads plain keys as they are. It decrypts what does not look like one. -/
theorem Cli.parseSecretKeyFileContents_eq_ok {passphrase : Option String} {path : String}
    {raw : Bytes} {key : Bytes32} :
    Cli.parseSecretKeyFileContents formats passphrase path raw = .ok key ↔
      PlainKeyFile formats raw key ∨ (∀ text, fromUtf8 raw = some text → ¬ Cli.looksPlain text) ∧
        ∃ password plaintext, passphrase = some password ∧ Text.trim password.toList ≠ [] ∧
          formats.decrypt password raw = some plaintext ∧ PlainKeyFile formats plaintext key := by
  have hdecrypt : Cli.decryptSecretKeyFile formats passphrase path raw = .ok key ↔ _ :=
    Cli.decryptSecretKeyFile_eq_ok
  rw [Cli.parseSecretKeyFileContents, ← hdecrypt]
  cases htext : fromUtf8 raw with
  | none =>
    have hplain : ¬ PlainKeyFile formats raw key := by
      rintro ⟨text, hsome, -⟩
      cases htext.symm.trans hsome
    rw [or_iff_right hplain]
    exact (and_iff_right nofun).symm
  | some text =>
    have hplain : PlainKeyFile formats raw key ↔ PlainKey formats text key := by
      rw [PlainKeyFile, htext]
      simp
    rw [hplain]
    dsimp only
    split
    · next hlooks =>
      rw [Cli.parseSecretKeyMaterial, parseKeyText_eq_ok]
      exact (or_iff_left fun h => h.1 text rfl hlooks).symm
    · next hlooks =>
      rw [or_iff_right fun h : PlainKey formats text key => hlooks h.looksPlain]
      refine (and_iff_right ?_).symm
      rintro _ ⟨⟩
      exact hlooks

/-- The client takes the key that the faucet takes from the same environment. -/
theorem Cli.loadSecretKey_of_loadKey {env : KeyEnvironment} {key : Bytes32}
    (h : Explorer.loadKey formats env = .ok (some key)) :
    Cli.loadSecretKey formats env = .ok key := by
  rw [Explorer.loadKey] at h
  rw [Cli.loadSecretKey]
  cases hfile : env.var "PRIMS_SECRET_KEY_FILE" with
  | some path =>
    rw [hfile] at h
    simp only [Except.bind_eq_ok] at h
    obtain ⟨raw, hraw, _, hkey, ⟨⟩⟩ := h
    dsimp only
    rw [hraw]
    apply Cli.parseSecretKeyFileContents_eq_ok.mpr
    exact .inl (Explorer.parseSecretKeyFileContents_eq_ok.mp hkey)
  | none =>
    rw [hfile] at h
    cases hhex : env.var "PRIMS_SECRET_KEY_HEX" with
    | none =>
      rw [hhex] at h
      cases h
    | some value =>
      rw [hhex] at h
      simp only [Except.bind_eq_ok] at h
      obtain ⟨_, hkey, ⟨⟩⟩ := h
      exact parseKeyText_eq_ok.mpr (Explorer.parseSecretKeyMaterial_eq_ok.mp hkey)

theorem Explorer.loadFaucetConfig_eq_ok {P : Primitives} {env : KeyEnvironment}
    {config : FaucetConfig} (h : loadFaucetConfig formats P env = .ok (some config)) :
    loadKey formats env = .ok (some config.secretKey) ∧
      config.publicKey = P.publicKey config.secretKey ∧
      faucetAmountFromEnv env = .ok config.amount := by
  rw [loadFaucetConfig, Except.bind_eq_ok] at h
  obtain ⟨key, hkey, h⟩ := h
  cases key with
  | none => cases h
  | some secretKey =>
    simp only [Except.bind_eq_ok] at h
    obtain ⟨amount, hamount, sourceShard, -, destinationShard, -, ⟨⟩⟩ := h
    exact ⟨hkey, rfl, hamount⟩

/-- Whether it is enabled or not, the pages of the faucet show one amount. -/
theorem Explorer.amount_fromEnv {P : Primitives} (env : KeyEnvironment) :
    (FaucetMode.fromEnv formats P env).amount env =
      (faucetAmountFromEnv env).toOption.getD 100 := by
  rw [FaucetMode.fromEnv]
  split
  · next config hconfig =>
    rw [(loadFaucetConfig_eq_ok hconfig).2.2]
    rfl
  · rfl
  · rfl

end Reading

/-- **The programs read the same plain keys.** A text is a key for the client if and only if it is
one for the explorer, and a file is one for the explorer if and only if it is one for the node:
these are the plain keys. The client reads them without a passphrase, and beyond them it reads files
only that are plain keys once they are decrypted. A node reads digits only from its variable. The
client signs with the key that the faucet takes from the same environment, and the faucet shows one
amount, whether it is enabled or not. -/
theorem key_readers_agree (formats : KeyFormats) (P : Primitives) (key : Bytes32) :
    (∀ text, (Cli.parseSecretKeyMaterial formats text = .ok key ↔ PlainKey formats text key) ∧
      (Explorer.parseSecretKeyMaterial formats text = .ok key ↔ PlainKey formats text key)) ∧
    (∀ path raw,
      (Explorer.parseSecretKeyFileContents formats path raw = .ok key ↔
        PlainKeyFile formats raw key) ∧
      (parseNetworkSecretKeyFileContents formats path raw = .ok key ↔
        PlainKeyFile formats raw key) ∧
      ∀ passphrase, Cli.parseSecretKeyFileContents formats passphrase path raw = .ok key ↔
        PlainKeyFile formats raw key ∨ (∀ text, fromUtf8 raw = some text → ¬ Cli.looksPlain text) ∧
          ∃ password plaintext, passphrase = some password ∧ Text.trim password.toList ≠ [] ∧
            formats.decrypt password raw = some plaintext ∧ PlainKeyFile formats plaintext key) ∧
    (∀ env generated value, env.var "PRIMS_NETWORK_SECRET_KEY_FILE" = none →
      env.var "PRIMS_NETWORK_SECRET_KEY_HEX" = some value →
      (loadNetworkIdentityKeypair formats env generated = .ok key ↔ Spells value key)) ∧
    ∀ env, (∀ config, Explorer.loadFaucetConfig formats P env = .ok (some config) →
        Cli.loadSecretKey formats env = .ok config.secretKey ∧
          config.publicKey = P.publicKey config.secretKey) ∧
      (Explorer.FaucetMode.fromEnv formats P env).amount env =
        (Explorer.faucetAmountFromEnv env).toOption.getD 100 := by
  refine ⟨fun text => ⟨parseKeyText_eq_ok, Explorer.parseSecretKeyMaterial_eq_ok⟩,
    fun path raw => ⟨Explorer.parseSecretKeyFileContents_eq_ok,
      parseNetworkSecretKeyFileContents_eq_ok,
      fun passphrase => Cli.parseSecretKeyFileContents_eq_ok⟩, ?_, fun env => ⟨?_, ?_⟩⟩
  · intro env generated value hfile hhex
    rw [loadNetworkIdentityKeypair, hfile, hhex]
    exact decodeHex32_eq_ok
  · intro config hconfig
    obtain ⟨hkey, hpublic, -⟩ := Explorer.loadFaucetConfig_eq_ok hconfig
    exact ⟨Cli.loadSecretKey_of_loadKey hkey, hpublic⟩
  · exact Explorer.amount_fromEnv env

end Prims
