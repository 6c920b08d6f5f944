import Prims.Client.KeyMaterial

/-!
# Generated keys

The client generates a key and prints it as a JSON object, or writes it to an encrypted file, which
must not exist before. What it prints is a plain key for all programs; what it encrypts is a key for
the client only, and only with the passphrase.

## Main definitions

* `generateKeyCommand`: the command
* `KeyFormats.Lawful`: what the formats of other packages promise
* `EncryptedTo`: the files to which the command encrypts a key

## Main results

* `writeEncryptedSecretKeyFile_ends`: what the command does to the files
* `KeyFormats.exists_lawful`: there are such formats
* `generated_keys_are_read`: what the command writes is read back
-/

namespace Prims

open Bincode Ceremony

/-! ## The command -/

structure GeneratedKeyOutput where
  publicKey : String
  secretKey : String
  warning : String

structure GeneratedEncryptedKeyOutput where
  publicKey : String
  encryptedFile : String
  warning : String

def GeneratedKeyOutput.json (output : GeneratedKeyOutput) : Bytes :=
  (jsonObject [
    ("public_key", jsonString output.publicKey),
    ("secret_key", jsonString output.secretKey),
    ("warning", jsonString output.warning)]).pretty 0

def GeneratedEncryptedKeyOutput.json (output : GeneratedEncryptedKeyOutput) : Bytes :=
  (jsonObject [
    ("public_key", jsonString output.publicKey),
    ("encrypted_file", jsonString output.encryptedFile),
    ("warning", jsonString output.warning)]).pretty 0

/-- The line that is printed. -/
def printJson (json : Bytes) : Bytes := json ++ [0x0a]

/-- What the command takes from its environment: the key that is generated, what is typed at the two
prompts, the salt of the encryption, and what becomes of the file. -/
structure GenerationEnvironment where
  secretKey : Bytes32
  first : Option String
  second : Option String
  salt : Bytes
  write : WriteOutcome

def promptNewPassphrase (first second : Option String) : Except KeyError String := do
  let first ← first.okOr .unreadablePassphrase
  let second ← second.okOr .unreadablePassphrase
  ensure (Text.trim first.toList ≠ []) .emptyPassphrase
  ensure (first = second) .passphrasesDiffer
  return first

/-- The text with a line end. -/
def endLine (text : String) : String :=
  if text.toList.getLast? = some '\n' then text else text ++ "\n"

theorem exists_endLine_eq (text : String) : ∃ tail, endLine text = text ++ tail := by
  rw [endLine]
  split
  · exact ⟨"", String.append_empty.symm⟩
  · exact ⟨"\n", rfl⟩

section Generation

variable (P : Primitives) (formats : KeyFormats) (env : GenerationEnvironment)

/-- A file that exists is not opened. -/
def newSecretFile (path : String) : Procedure KeyError (Files String) Unit :=
  Procedure.read fun files => ensure (files path = none) (.createFile path)

def writeEncryptedSecretKeyFile (path : String) : Procedure KeyError (Files String) Unit := do
  let passphrase ← Procedure.lift (promptNewPassphrase env.first env.second)
  let ciphertext ← Procedure.lift ((formats.encryptAndArmor env.salt passphrase
    (utf8 (encodeHex env.secretKey.toList))).okOr .encryption)
  newSecretFile path
  writeFile env.write.flushed
    (if env.write = .refused then .createFile path else .writeFile path) path
    (utf8 (endLine ciphertext))
  return ()

def generatedKeyOutput : GeneratedKeyOutput where
  publicKey := encodeHex (P.publicKey env.secretKey).toList
  secretKey := encodeHex env.secretKey.toList
  warning := "Sauvegarde la clé privée hors du terminal et ne la partage jamais."

def generatedEncryptedKeyOutput (path : String) : GeneratedEncryptedKeyOutput where
  publicKey := encodeHex (P.publicKey env.secretKey).toList
  encryptedFile := path
  warning := "Conserve le mot de passe séparément du fichier chiffré et ne le partage jamais."

/-- The output of the command. -/
def generateKeyCommand (encryptedFile : Option String) :
    Procedure KeyError (Files String) Bytes :=
  match encryptedFile with
  | some path => do
    writeEncryptedSecretKeyFile formats env path
    return printJson (generatedEncryptedKeyOutput P env path).json
  | none => return printJson (generatedKeyOutput P env).json

end Generation

/-! ## What is promised -/

/-- **What the formats promise**: the strings of a JSON object are read from its text, an armored
text that ends its last line is decrypted with the passphrase it was encrypted with, and it starts
with a line that says what it is. -/
structure KeyFormats.Lawful (formats : KeyFormats) : Prop where
  fields : ∀ (fields : List (String × String)) (text : String), (fields.map Prod.fst).Nodup →
    utf8 text = (jsonObject (fields.map fun field => (field.1, jsonString field.2))).pretty 0 →
      ∃ values, formats.jsonFields text = some values ∧ ∀ name, values name = fields.lookup name
  decrypt : ∀ (salt : Bytes) (passphrase : String) (plaintext : Bytes) (text : String),
    formats.encryptAndArmor salt passphrase plaintext = some text →
      formats.decrypt passphrase (utf8 (endLine text)) = some plaintext
  armored : ∀ (salt : Bytes) (passphrase : String) (plaintext : Bytes) (text : String),
    formats.encryptAndArmor salt passphrase plaintext = some text →
      ∃ rest, text = "-----BEGIN AGE ENCRYPTED FILE-----" ++ rest

/-! ## The text of a generated key -/

/-- The text of several parts. -/
def concatText (parts : List String) : String := String.ofList (parts.flatMap String.toList)

theorem utf8_concatText (parts : List String) : utf8 (concatText parts) = parts.flatMap utf8 := by
  have hpart : ∀ part ∈ parts, part.toList.flatMap String.utf8EncodeChar = utf8 part := by
    intro part _
    rw [← utf8_ofList, String.ofList_toList]
  rw [concatText, utf8_ofList, List.flatMap_assoc]
  exact List.flatMap_congr hpart

/-- The lines of the object, between which the values stand. -/
def GeneratedKeyOutput.parts (output : GeneratedKeyOutput) : List String :=
  ["\x7b\n  \"public_key\": \"", output.publicKey, "\",\n  \"secret_key\": \"",
    output.secretKey, "\",\n  \"warning\": \"", output.warning, "\"\n\x7d"]

theorem GeneratedKeyOutput.flatMap_parts {output : GeneratedKeyOutput}
    (hpublic : ∀ b ∈ utf8 output.publicKey, b ∉ Json.escaped)
    (hsecret : ∀ b ∈ utf8 output.secretKey, b ∉ Json.escaped)
    (hwarning : ∀ b ∈ utf8 output.warning, b ∉ Json.escaped) :
    output.parts.flatMap utf8 = output.json := by
  have hopen : utf8 "\x7b\n  \"public_key\": \"" =
      0x7b :: (Json.newline 1 ++ (Json.quote (utf8 "public_key") ++ [0x3a, 0x20, 0x22])) := by
    decide +kernel
  have hnext : utf8 "\",\n  \"secret_key\": \"" = 0x22 :: 0x2c ::
      (Json.newline 1 ++ (Json.quote (utf8 "secret_key") ++ [0x3a, 0x20, 0x22])) := by
    decide +kernel
  have hlast : utf8 "\",\n  \"warning\": \"" = 0x22 :: 0x2c ::
      (Json.newline 1 ++ (Json.quote (utf8 "warning") ++ [0x3a, 0x20, 0x22])) := by
    decide +kernel
  have hclose : utf8 "\"\n\x7d" = 0x22 :: (Json.newline 0 ++ [0x7d]) := by decide +kernel
  simp only [parts, List.flatMap_cons, List.flatMap_nil]
  rw [hopen, hnext, hlast, hclose]
  simp only [json, jsonObject, jsonString, List.map_cons, List.map_nil, Json.pretty,
    Json.prettyFields]
  rw [Json.quote_eq hpublic, Json.quote_eq hsecret, Json.quote_eq hwarning]
  simp only [List.cons_append, List.append_assoc, List.nil_append, List.append_nil, Nat.zero_add]

theorem not_mem_escaped_encodeHex (bytes : Bytes) :
    ∀ b ∈ utf8 (encodeHex bytes), b ∉ Json.escaped := by
  have hdigit : ∀ n < 16, ∀ b ∈ String.utf8EncodeChar (Text.hexDigit n), b ∉ Json.escaped := by
    decide +kernel
  intro b hb
  rw [encodeHex, utf8_ofList] at hb
  obtain ⟨c, hc, hb⟩ := List.mem_flatMap.mp hb
  obtain ⟨n, hn, rfl⟩ := Text.mem_hexEncode hc
  exact hdigit n hn b hb

theorem spells_encodeHex (key : Bytes32) : Spells (encodeHex key.toList) key := by
  refine ⟨[], Text.hexEncode key.toList, by simp, ?_, Text.hexDecode_hexEncode _⟩
  rw [encodeHex, String.toList_ofList, Text.trim_hexEncode]
  rfl

section Generated

variable {P : Primitives} {formats : KeyFormats} {env : GenerationEnvironment}

theorem flatMap_parts_generated : (generatedKeyOutput P env).parts.flatMap utf8 =
    (generatedKeyOutput P env).json := by
  apply GeneratedKeyOutput.flatMap_parts
  · exact not_mem_escaped_encodeHex _
  · exact not_mem_escaped_encodeHex _
  · show ∀ b ∈ utf8 "Sauvegarde la clé privée hors du terminal et ne la partage jamais.", _
    decide +kernel

/-- **What is printed is a plain key.** -/
theorem plainKeyFile_generated (hformats : formats.Lawful) :
    PlainKeyFile formats (printJson (generatedKeyOutput P env).json) env.secretKey := by
  set output := generatedKeyOutput P env
  have hjson : output.parts.flatMap utf8 = output.json := flatMap_parts_generated
  have hraw : utf8 (concatText (output.parts ++ ["\n"])) = printJson output.json := by
    rw [utf8_concatText, List.flatMap_append, hjson, printJson]
    congr 1
  have hopen : "\x7b\n  \"public_key\": \"".toList.head? = some '\x7b' := by decide +kernel
  have hfirst : (output.parts.flatMap String.toList).head? = some '\x7b' := by
    rw [GeneratedKeyOutput.parts, List.flatMap_cons, List.head?_append, hopen, Option.some_or]
  have htrim : Text.trim (concatText (output.parts ++ ["\n"])).toList =
      output.parts.flatMap String.toList := by
    have hend : output.parts.flatMap String.toList =
        (output.parts.dropLast.flatMap String.toList ++ ['\x22', '\n']) ++ ['\x7d'] := by
      simp [GeneratedKeyOutput.parts]
    have hlast : (output.parts.flatMap String.toList).getLast? = some '\x7d' := by
      rw [hend, List.getLast?_concat]
    have hspace : ∀ c ∈ ["\n"].flatMap String.toList, Text.isWhitespace c := by
      intro c hc
      rw [List.flatMap_singleton, show "\n".toList = ['\n'] from rfl, List.mem_singleton] at hc
      rw [hc]
      rfl
    rw [concatText, String.toList_ofList, List.flatMap_append]
    exact Text.trim_append hfirst hlast (by decide) (by decide) hspace
  refine ⟨_, hraw ▸ fromUtf8_utf8 _, .inl ?_⟩
  rw [htrim]
  refine ⟨hfirst, ?_⟩
  obtain ⟨values, hvalues, hlookup⟩ := hformats.fields
    [("public_key", output.publicKey), ("secret_key", output.secretKey),
      ("warning", output.warning)] (concatText output.parts) (by simp)
    ((utf8_concatText _).trans hjson)
  refine ⟨values, output.secretKey, hvalues, ?_, spells_encodeHex env.secretKey⟩
  rw [hlookup "secret_key"]
  rfl

/-! ## The encrypted file -/

/-- An encrypted file does not look like a plain key, with a line end after it or without. -/
theorem not_looksPlain_endLine (hformats : formats.Lawful) {salt : Bytes} {passphrase : String}
    {plaintext : Bytes} {text : String}
    (h : formats.encryptAndArmor salt passphrase plaintext = some text) :
    ¬ Cli.looksPlain (endLine text) := by
  obtain ⟨rest, rfl⟩ := hformats.armored salt passphrase plaintext text h
  have hfirst : (endLine ("-----BEGIN AGE ENCRYPTED FILE-----" ++ rest)).toList.head? =
      some '-' := by
    rw [endLine]
    split <;> simp [String.toList_append]
  have htrim := Text.head?_trim hfirst (by decide)
  obtain ⟨tail, htail⟩ := List.head?_eq_some_iff.mp htrim
  have hnormalized : Cli.normalizedHex (String.ofList (Text.trim
      (endLine ("-----BEGIN AGE ENCRYPTED FILE-----" ++ rest)).toList)) = '-' :: tail := by
    rw [Cli.normalizedHex, String.toList_ofList, Text.trim_trim, htail]
    rfl
  rw [Cli.looksPlain, Bool.or_eq_true, decide_eq_true_eq, Cli.looksLikePlaintextHexSecret,
    hnormalized, htrim]
  rintro (h | h)
  · cases h
  · cases h

theorem promptNewPassphrase_eq_ok {first second : Option String} {passphrase : String}
    (h : promptNewPassphrase first second = .ok passphrase) :
    first = some passphrase ∧ Text.trim passphrase.toList ≠ [] := by
  simp only [promptNewPassphrase, Except.bind_eq_ok, Option.okOr_eq_ok, ensure_eq_ok] at h
  obtain ⟨_, hfirst, _, -, _, hne, _, -, ⟨⟩⟩ := h
  exact ⟨hfirst, hne⟩

/-- The file is one that the client encrypts the key to. -/
def EncryptedTo (formats : KeyFormats) (env : GenerationEnvironment) (raw : Bytes) : Prop :=
  ∃ passphrase text, env.first = some passphrase ∧ Text.trim passphrase.toList ≠ [] ∧
    formats.encryptAndArmor env.salt passphrase (utf8 (encodeHex env.secretKey.toList)) =
      some text ∧ raw = utf8 (endLine text)

/-- **What the command does to the files**: none that exists is written, and when it succeeds the
new file is whole. -/
theorem writeEncryptedSecretKeyFile_ends (path : String) (files : Files String) :
    (writeEncryptedSecretKeyFile formats env path).Ends files
      (fun _ after => files path = none ∧ ∃ raw, EncryptedTo formats env raw ∧
        after = Function.update files path (some raw))
      fun _ after => after = files ∨
        files path = none ∧ ∃ content, after = Function.update files path content := by
  apply Procedure.Ends.lift_bind
  · exact fun e _ => .inl rfl
  intro passphrase hpassphrase
  obtain ⟨hfirst, hne⟩ := promptNewPassphrase_eq_ok hpassphrase
  apply Procedure.Ends.lift_bind
  · exact fun e _ => .inl rfl
  intro text htext
  apply Procedure.Ends.read_bind
  · exact fun e _ => .inl rfl
  intro _ hnew
  rw [ensure_eq_ok] at hnew
  apply Procedure.Ends.writeFile_bind
  · exact fun _ => .inr ⟨hnew, _, rfl⟩
  · intro hsilent
    apply Procedure.Ends.pure
    refine ⟨hnew, _, ⟨passphrase, text, hfirst, hne, Option.okOr_eq_ok.mp htext, rfl⟩, ?_⟩
    rw [WriteOutcome.leaves_of_silent_flushed hsilent]

/-- When nothing fails, the command succeeds. -/
theorem generateKeyCommand_run {path passphrase text : String} {files : Files String}
    (hpassphrase : promptNewPassphrase env.first env.second = .ok passphrase)
    (htext : formats.encryptAndArmor env.salt passphrase
      (utf8 (encodeHex env.secretKey.toList)) = some text)
    (hnew : files path = none) (hwrite : env.write = .whole) :
    ((generateKeyCommand P formats env (some path)).run files).1 =
      .ok (printJson (generatedEncryptedKeyOutput P env path).json) := by
  have hprompt : (Procedure.lift (promptNewPassphrase env.first env.second) :
      Procedure KeyError (Files String) String).run files = (.ok passphrase, files) := by
    rw [Procedure.lift_run, hpassphrase]
  have hencrypt : (Procedure.lift ((formats.encryptAndArmor env.salt passphrase
      (utf8 (encodeHex env.secretKey.toList))).okOr .encryption) :
      Procedure KeyError (Files String) String).run files = (.ok text, files) := by
    rw [Procedure.lift_run, htext]
    rfl
  have hcreate : (newSecretFile path).run files = (.ok (), files) := by
    rw [newSecretFile, Procedure.read_run, ensure_eq_ok.mpr hnew]
  have hfile : (writeEncryptedSecretKeyFile formats env path).run files =
      (.ok (), Function.update files path (some (utf8 (endLine text)))) := by
    rw [writeEncryptedSecretKeyFile, Procedure.bind_run_ok hprompt, Procedure.bind_run_ok hencrypt,
      Procedure.bind_run_ok hcreate, hwrite]
    rfl
  rw [generateKeyCommand, Procedure.bind_run_ok hfile]
  rfl

/-- Only the client reads an encrypted key, and only with the passphrase. -/
theorem EncryptedTo.read (hformats : formats.Lawful) {raw : Bytes}
    (h : EncryptedTo formats env raw) (path : String) :
    (∃ passphrase, env.first = some passphrase ∧
      Cli.parseSecretKeyFileContents formats (some passphrase) path raw = .ok env.secretKey) ∧
    ∀ key, Cli.parseSecretKeyFileContents formats none path raw ≠ .ok key ∧
      Explorer.parseSecretKeyFileContents formats path raw ≠ .ok key ∧
      parseNetworkSecretKeyFileContents formats path raw ≠ .ok key := by
  obtain ⟨passphrase, text, hfirst, hne, htext, rfl⟩ := h
  have hlooks : ∀ text', fromUtf8 (utf8 (endLine text)) = some text' → ¬ Cli.looksPlain text' := by
    intro text' htext'
    rw [fromUtf8_utf8] at htext'
    cases htext'
    exact not_looksPlain_endLine hformats htext
  have hplain : ∀ key, ¬ PlainKeyFile formats (utf8 (endLine text)) key := by
    rintro key ⟨text', htext', hkey⟩
    exact hlooks text' htext' hkey.looksPlain
  constructor
  · refine ⟨passphrase, hfirst, Cli.parseSecretKeyFileContents_eq_ok.mpr (.inr ⟨hlooks, ?_⟩)⟩
    exact ⟨passphrase, _, rfl, hne, hformats.decrypt _ _ _ _ htext, _, fromUtf8_utf8 _,
      .inr (spells_encodeHex env.secretKey)⟩
  · intro key
    refine ⟨fun h => ?_, fun h => ?_, fun h => ?_⟩
    · rcases Cli.parseSecretKeyFileContents_eq_ok.mp h with h | ⟨-, password, _, hnone, -⟩
      · exact hplain key h
      · cases hnone
    · exact hplain key (Explorer.parseSecretKeyFileContents_eq_ok.mp h)
    · exact hplain key (parseNetworkSecretKeyFileContents_eq_ok.mp h)

end Generated

/-- **Generated keys are read.** The printed key is a file that the client, the explorer and the
node read as the generated key. The command with a file leaves all others alone, and every file that
exists; when it succeeds, the file is new, the client reads the generated key from it with the
passphrase that was typed, and nobody reads any key from it without one. -/
theorem generated_keys_are_read (formats : KeyFormats) (hformats : formats.Lawful) (P : Primitives)
    (env : GenerationEnvironment) (files : Files String) :
    (∃ raw, (generateKeyCommand P formats env none).run files = (.ok raw, files) ∧
      ∀ path, (∀ passphrase, Cli.parseSecretKeyFileContents formats passphrase path raw =
          .ok env.secretKey) ∧
        Explorer.parseSecretKeyFileContents formats path raw = .ok env.secretKey ∧
        parseNetworkSecretKeyFileContents formats path raw = .ok env.secretKey) ∧
    ∀ path,
      let outcome := (generateKeyCommand P formats env (some path)).run files
      (∀ other, other ≠ path ∨ files other ≠ none → outcome.2 other = files other) ∧
      ∀ stdout, outcome.1 = .ok stdout → files path = none ∧ ∃ raw passphrase,
        outcome.2 path = some raw ∧ env.first = some passphrase ∧
        Cli.parseSecretKeyFileContents formats (some passphrase) path raw = .ok env.secretKey ∧
        ∀ key, Cli.parseSecretKeyFileContents formats none path raw ≠ .ok key ∧
          Explorer.parseSecretKeyFileContents formats path raw ≠ .ok key ∧
          parseNetworkSecretKeyFileContents formats path raw ≠ .ok key := by
  constructor
  · have hplain : PlainKeyFile formats (printJson (generatedKeyOutput P env).json) env.secretKey :=
      plainKeyFile_generated hformats
    exact ⟨_, rfl, fun path => ⟨fun _ => Cli.parseSecretKeyFileContents_eq_ok.mpr (.inl hplain),
      Explorer.parseSecretKeyFileContents_eq_ok.mpr hplain,
      parseNetworkSecretKeyFileContents_eq_ok.mpr hplain⟩⟩
  · intro path outcome
    have hends : (generateKeyCommand P formats env (some path)).Ends files
        (fun _ after => files path = none ∧ ∃ raw, EncryptedTo formats env raw ∧
          after = Function.update files path (some raw))
        fun _ after => after = files ∨
          files path = none ∧ ∃ content, after = Function.update files path content :=
      Procedure.Ends.bind ((writeEncryptedSecretKeyFile_ends path files).mono
        (fun _ _ h => Procedure.Ends.pure h) fun _ _ h => h)
    have hframe : ∀ content, files path = none → ∀ other, other ≠ path ∨ files other ≠ none →
        Function.update files path content other = files other := by
      intro content hnew other hother
      apply Function.update_of_ne
      rintro rfl
      exact hother.elim (fun h => h rfl) fun h => h hnew
    rcases hrun : (generateKeyCommand P formats env (some path)).run files with ⟨result, after⟩
    rw [Procedure.Ends, hrun] at hends
    rw [show outcome = (result, after) from hrun]
    cases result with
    | error e =>
      refine ⟨fun other hother => ?_, fun stdout h => ?_⟩
      · rcases hends with rfl | ⟨hnew, content, rfl⟩
        · rfl
        · exact hframe content hnew other hother
      · cases h
    | ok stdout =>
      obtain ⟨hnew, raw, hraw, rfl⟩ := hends
      refine ⟨hframe (some raw) hnew, fun _ _ => ⟨hnew, raw, ?_⟩⟩
      obtain ⟨⟨passphrase, hfirst, hread⟩, hothers⟩ := hraw.read hformats path
      exact ⟨passphrase, Function.update_self .., hfirst, hread, hothers⟩

/-! ## Formats -/

/-- The text of an object with strings. -/
def stringsText (fields : List (String × String)) : Bytes :=
  (jsonObject (fields.map fun field => (field.1, jsonString field.2))).pretty 0

theorem stringsText_injective : Function.Injective stringsText := by
  intro fields fields' h
  have hprefix : stringsText fields <+: stringsText fields' := by rw [h]
  have hobject := congrArg Json.object (Json.object_eq_of_isPrefix hprefix)
  refine List.map_injective_iff.mpr ?_ (jsonObject_injective hobject)
  intro field field' hfield
  obtain ⟨hname, hvalue⟩ := Prod.mk.inj hfield
  exact Prod.ext hname (jsonString_injective hvalue)

/-- The start of a file that a passphrase encrypts. -/
def armorStart (passphrase : String) : String :=
  "-----BEGIN AGE ENCRYPTED FILE-----" ++ ("\n" ++ (encodeHex (utf8 passphrase) ++ ":"))

theorem hexDigit_ne_colon : ∀ n < 16, Text.hexDigit n ≠ ':' := by decide

/-- **There are lawful formats**: the reader that knows the texts of all objects with strings, and
an encryption that writes digits. -/
theorem KeyFormats.exists_lawful : ∃ formats : KeyFormats, formats.Lawful ∧
    ∀ salt passphrase plaintext,
      (formats.encryptAndArmor salt passphrase plaintext).isSome := by
  refine ⟨{
    jsonFields := fun text => (Function.partialInv stringsText (utf8 text)).map fun fields name =>
      fields.lookup name
    encryptAndArmor := fun _ passphrase plaintext =>
      some (armorStart passphrase ++ (encodeHex plaintext ++ ":"))
    decrypt := fun passphrase ciphertext => do
      let text ← fromUtf8 ciphertext
      let body ← (armorStart passphrase).toList.isPrefixOf? text.toList
      Text.hexDecode (body.takeWhile (· ≠ ':')) }, ⟨?_, ?_, ?_⟩, fun _ _ _ => rfl⟩
  · intro fields text _ htext
    refine ⟨_, ?_, fun _ => rfl⟩
    dsimp only
    rw [htext, show (jsonObject _).pretty 0 = stringsText fields from rfl,
      Function.partialInv_left stringsText_injective]
    rfl
  · intro _ passphrase plaintext text htext
    cases htext
    have hdecrypt : ∀ tail, (do
        let text ← fromUtf8 (utf8 (armorStart passphrase ++ (encodeHex plaintext ++ ":") ++ tail))
        let body ← (armorStart passphrase).toList.isPrefixOf? text.toList
        Text.hexDecode (body.takeWhile (· ≠ ':'))) = some plaintext := by
      intro tail
      have hbody : (armorStart passphrase).toList.isPrefixOf?
          (armorStart passphrase ++ (encodeHex plaintext ++ ":") ++ tail).toList =
            some (Text.hexEncode plaintext ++ ':' :: tail.toList) := by
        rw [List.isPrefixOf?_eq_some_iff_append_eq]
        simp [String.toList_append, encodeHex]
      have hdigits : ∀ c ∈ Text.hexEncode plaintext, decide (c ≠ ':') = true := by
        intro c hc
        obtain ⟨n, hn, rfl⟩ := Text.mem_hexEncode hc
        exact decide_eq_true (hexDigit_ne_colon n hn)
      have hkept : (Text.hexEncode plaintext ++ ':' :: tail.toList).takeWhile (· ≠ ':') =
          Text.hexEncode plaintext := by
        rw [List.takeWhile_append_of_pos hdigits, List.takeWhile_cons]
        exact List.append_nil _
      rw [fromUtf8_utf8]
      show (do
        let body ← (armorStart passphrase).toList.isPrefixOf?
          (armorStart passphrase ++ (encodeHex plaintext ++ ":") ++ tail).toList
        Text.hexDecode (body.takeWhile (· ≠ ':'))) = some plaintext
      rw [hbody]
      show Text.hexDecode ((Text.hexEncode plaintext ++ ':' :: tail.toList).takeWhile (· ≠ ':')) = _
      rw [hkept, Text.hexDecode_hexEncode]
    obtain ⟨tail, htail⟩ :=
      exists_endLine_eq (armorStart passphrase ++ (encodeHex plaintext ++ ":"))
    rw [htail]
    exact hdecrypt tail
  · intro _ passphrase plaintext text htext
    cases htext
    refine ⟨"\n" ++ (encodeHex (utf8 passphrase) ++ ":") ++ (encodeHex plaintext ++ ":"), ?_⟩
    unfold armorStart
    exact String.append_assoc

/-- A key for which one passphrase is typed twice, and a disk that does not fail. -/
def sampleGeneration : GenerationEnvironment where
  secretKey := .replicate 32 1
  first := some "correct horse"
  second := some "correct horse"
  salt := []
  write := .whole

/-- The key is written to a new file, and the client reads it from there. -/
theorem sampleGeneration_read : ∃ formats : KeyFormats, formats.Lawful ∧
    let outcome := (generateKeyCommand noSignatures formats sampleGeneration (some "key.age")).run
      fun _ => none
    outcome.1.isOk ∧ ∃ raw, outcome.2 "key.age" = some raw ∧
      Cli.parseSecretKeyFileContents formats (some "correct horse") "key.age" raw =
        .ok sampleGeneration.secretKey := by
  obtain ⟨formats, hformats, hencrypts⟩ := KeyFormats.exists_lawful
  refine ⟨formats, hformats, ?_⟩
  intro outcome
  obtain ⟨text, htext⟩ := Option.isSome_iff_exists.mp
    (hencrypts [] "correct horse" (utf8 (encodeHex sampleGeneration.secretKey.toList)))
  have hstdout : outcome.1 =
      .ok (printJson (generatedEncryptedKeyOutput noSignatures sampleGeneration "key.age").json) :=
    generateKeyCommand_run (by decide +kernel) htext rfl rfl
  obtain ⟨-, hreads⟩ := (generated_keys_are_read formats hformats noSignatures sampleGeneration
    fun _ => none).2 "key.age"
  obtain ⟨-, raw, passphrase, hraw, hfirst, hread, -⟩ := hreads _ hstdout
  obtain rfl : "correct horse" = passphrase := Option.some.inj hfirst
  exact ⟨by rw [hstdout]; rfl, raw, hraw, hread⟩

end Prims
