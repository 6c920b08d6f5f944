import Prims.Lib.Files
import Prims.Lib.Json
import Prims.Privacy.Ceremony
import Prims.Privacy.Proving

/-!
# The directory of the setup ceremony

The commands of `bin/prims-setup.rs` on the directory of a ceremony. `init` and `contribute` write
the state of the ceremony, `finalize` makes the keys from the seed of that state and writes them and
the metadata, and `inspect` reads the state. Every file is written in place: there is no temporary
file, and the JSON files are written through a buffer that is dropped without being flushed.

The disk may fail in every access, and the program may be killed. What a command does all the same
is said once, in `SetupCommand.Effect`.

## Main definitions

* `SetupFormats`: the texts of the files, and the random number generator
* `cmdInit`, `cmdContribute`, `cmdFinalize`, `cmdInspect`: the commands
* `SetupCommand.Effect`: what a command does to the files
* `Finalized`: a directory with the keys of a state

## Main results

* `SetupFormats.exists_lawful`: there is a reader that reads back what is written
* `SetupCommand.does_run`: what every command does, whether it succeeds or not
-/

namespace Prims.Ceremony

open Bincode Circuit

/-! ## Files -/

/-- The files of a ceremony. -/
inductive SetupFile where
  | state
  | metadata
  | provingKey
  | verifyingKey
  deriving DecidableEq, Repr

/-- The names of the files in the directory. -/
def SetupFile.name : SetupFile → String
  | .state => "ceremony_state.json"
  | .metadata => "setup_metadata.json"
  | .provingKey => "groth16_proving_key.bin"
  | .verifyingKey => "groth16_verifying_key.bin"

structure SetupMetadata where
  version : UInt32
  ceremonyKind : String
  curve : String
  provingSystem : String
  transcriptFinalDigestHex : String
  contributionCount : ℕ
  contributorNames : List String
  provingKeyFile : String
  verifyingKeyFile : String
  circuitMetadata : ZkTransferSetupCircuitMetadata
  generatedAtUnix : UInt64
  notes : List String
  deriving DecidableEq

/-! ## Texts -/

/-- A structure of named fields, in their order. -/
def jsonObject (fields : List (String × Json)) : Json :=
  .object (fields.map fun field => (utf8 field.1, field.2))

def jsonString (text : String) : Json := .string (utf8 text)

def CeremonyContribution.toJson (contribution : CeremonyContribution) : Json :=
  jsonObject [
    ("index", .number contribution.index),
    ("contributor", jsonString contribution.contributor),
    ("contributed_at_unix", .number contribution.contributedAtUnix.toNat),
    ("entropy_digest_hex", jsonString contribution.entropyDigestHex),
    ("transcript_digest_hex", jsonString contribution.transcriptDigestHex)]

/-- The text of the state file. -/
def CeremonyState.json (state : CeremonyState) : Bytes :=
  (jsonObject [
    ("version", .number state.version.toNat),
    ("ceremony_kind", jsonString state.ceremonyKind),
    ("curve", jsonString state.curve),
    ("circuit", jsonString state.circuit),
    ("contributions", .array (state.contributions.map (·.toJson))),
    ("last_transcript_digest_hex", jsonString state.lastTranscriptDigestHex),
    ("created_at_unix", .number state.createdAtUnix.toNat),
    ("updated_at_unix", .number state.updatedAtUnix.toNat)]).pretty 0

/-- The text of the metadata file. -/
def SetupMetadata.json (metadata : SetupMetadata) : Bytes :=
  (jsonObject [
    ("version", .number metadata.version.toNat),
    ("ceremony_kind", jsonString metadata.ceremonyKind),
    ("curve", jsonString metadata.curve),
    ("proving_system", jsonString metadata.provingSystem),
    ("transcript_final_digest_hex", jsonString metadata.transcriptFinalDigestHex),
    ("contribution_count", .number metadata.contributionCount),
    ("contributor_names", .array (metadata.contributorNames.map jsonString)),
    ("proving_key_file", jsonString metadata.provingKeyFile),
    ("verifying_key_file", jsonString metadata.verifyingKeyFile),
    ("circuit_metadata", jsonObject [
      ("input_count", .number metadata.circuitMetadata.inputCount),
      ("output_count", .number metadata.circuitMetadata.outputCount),
      ("merkle_path_len", .number metadata.circuitMetadata.merklePathLen),
      ("tree_leaf_count", .number metadata.circuitMetadata.treeLeafCount),
      ("fee", .number metadata.circuitMetadata.fee.toNat)]),
    ("generated_at_unix", .number metadata.generatedAtUnix.toNat),
    ("notes", .array (metadata.notes.map jsonString))]).pretty 0

theorem jsonString_injective : Function.Injective jsonString :=
  fun _ _ h => utf8_injective (Json.string.inj h)

theorem jsonObject_injective : Function.Injective jsonObject := by
  refine fun fields fields' h => List.map_injective_iff.mpr ?_ (Json.object.inj h)
  intro field field' hfield
  obtain ⟨hkey, hvalue⟩ := Prod.mk.inj hfield
  exact Prod.ext (utf8_injective hkey) hvalue

theorem CeremonyContribution.toJson_injective :
    Function.Injective CeremonyContribution.toJson := by
  intro contribution contribution' h
  have hfields := jsonObject_injective h
  cases contribution
  cases contribution'
  simpa [jsonString_injective.eq_iff, UInt64.toNat_inj] using hfields

/-- **A state is read off its text**, and no state is written as a part of another one. -/
theorem CeremonyState.eq_of_json_isPrefix {state state' : CeremonyState}
    (h : state.json <+: state'.json) : state = state' := by
  have hobject := congrArg Json.object (Json.object_eq_of_isPrefix h)
  have hfields := jsonObject_injective hobject
  cases state
  cases state'
  simpa [jsonString_injective.eq_iff, UInt64.toNat_inj, UInt32.toNat_inj,
    CeremonyContribution.toJson_injective.list_map.eq_iff] using hfields

theorem SetupMetadata.eq_of_json_isPrefix {metadata metadata' : SetupMetadata}
    (h : metadata.json <+: metadata'.json) : metadata = metadata' := by
  have hobject := congrArg Json.object (Json.object_eq_of_isPrefix h)
  have hfields := jsonObject_injective hobject
  obtain ⟨_, _, _, _, _, _, _, _, _, ⟨_, _, _, _, _⟩, _, _⟩ := metadata
  obtain ⟨_, _, _, _, _, _, _, _, _, ⟨_, _, _, _, _⟩, _, _⟩ := metadata'
  simpa [jsonString_injective.eq_iff, jsonObject_injective.eq_iff, UInt64.toNat_inj,
    UInt32.toNat_inj, jsonString_injective.list_map.eq_iff] using hfields

/-! ## The disk -/

/-- What the commands use of other packages: the reading of a state, the bytes of the keys, and the
generator that is seeded. -/
structure SetupFormats (G : ProofSystem Fr) where
  parseState : Bytes → Option CeremonyState
  provingKeyBytes : G.ProvingKey → Bytes
  verifyingKeyBytes : G.VerifyingKey → Bytes
  fromSeed : Bytes32 → G.Rng

/-- A state is read back from its text, and not from a part of the text. -/
structure SetupFormats.Lawful {G : ProofSystem Fr} (formats : SetupFormats G) : Prop where
  parse_json : ∀ state : CeremonyState, formats.parseState state.json = some state
  parse_part : ∀ (state : CeremonyState) (part : Bytes), part <+: state.json.dropLast →
    formats.parseState part = none

/-- **There are lawful readers**: the one that knows the texts of all states, and no other texts. -/
theorem SetupFormats.exists_lawful {G : ProofSystem Fr} (provingKeyBytes : G.ProvingKey → Bytes)
    (verifyingKeyBytes : G.VerifyingKey → Bytes) (fromSeed : Bytes32 → G.Rng) :
    ∃ parseState, SetupFormats.Lawful
      (⟨parseState, provingKeyBytes, verifyingKeyBytes, fromSeed⟩ : SetupFormats G) := by
  have hinjective : Function.Injective CeremonyState.json := fun state state' h =>
    CeremonyState.eq_of_json_isPrefix (h ▸ List.prefix_rfl)
  refine ⟨Function.partialInv CeremonyState.json, Function.partialInv_left hinjective,
    fun state part hpart => ?_⟩
  cases hread : Function.partialInv CeremonyState.json part with
  | none => exact hread
  | some state' =>
    have hpart' : state'.json = part := (hinjective.isPartialInv state' part).mp hread
    rw [← hpart'] at hpart
    obtain rfl := CeremonyState.eq_of_json_isPrefix (hpart.trans (List.dropLast_prefix _))
    have hlength := hpart.length_le
    have hpos : 0 < state'.json.length := Nat.succ_pos _
    rw [List.length_dropLast] at hlength
    omega

/-- What the disk and the clock do for a command. -/
structure Conditions where
  outDir : Bool := true
  queries : SetupFile → Bool := fun _ => true
  readable : Bool := true
  writes : SetupFile → WriteOutcome := fun _ => .whole
  clock : Option UInt64

inductive SetupCliError (ε : Type) where
  | outDir
  | createOrWrite (file : SetupFile)
  | readState
  | decodeState
  | stateExists
  | artifactsExist
  | ceremony (error : Fault SetupError)
  | noContribution
  | invalidCircuit (error : ZkTransferSetupError)
  | trustedSetup (error : SynthesisError ⊕ ε)

/-! ## Commands -/

section Commands

variable (P : Primitives) {G : ProofSystem Fr} (formats : SetupFormats G) (conditions : Conditions)

/-- A command on the files of the directory. -/
abbrev SetupProcedure (G : ProofSystem Fr) := Procedure (SetupCliError G.Error) (Files SetupFile)

def ensureOutDir : SetupProcedure G Unit := Procedure.lift (ensure conditions.outDir .outDir)

/-- Whether a file exists; a file that cannot be queried does not. -/
def pathExists (file : SetupFile) : SetupProcedure G Bool :=
  Procedure.read fun files => .ok (conditions.queries file && (files file).isSome)

def readState : SetupProcedure G CeremonyState :=
  Procedure.read fun files => do
    let content ← (if conditions.readable then files .state else none).okOr .readState
    (formats.parseState content).okOr .decodeState

/-- The buffer is dropped at the end, and errors of the drop are ignored. -/
def writeJsonPretty (file : SetupFile) (text : Bytes) : SetupProcedure G Unit :=
  writeFile (conditions.writes file) (.createOrWrite file) file text

def writeKeyFile (file : SetupFile) (bytes : Bytes) : SetupProcedure G Unit :=
  writeFile (conditions.writes file).flushed (.createOrWrite file) file bytes

/-- The participant of a command, with the clock that the command reads. -/
def participantAt (conditions : Conditions) (name : String) (entropy : Bytes32) : Participant :=
  ⟨name, conditions.clock, entropy⟩

def cmdInit (organizer : String) (entropy : Bytes32) (force : Bool) : SetupProcedure G Unit := do
  ensureOutDir conditions
  let stateExists ← pathExists conditions .state
  Procedure.lift (ensure (¬ (stateExists ∧ ¬ force)) .stateExists)
  let state ← Procedure.lift
    ((buildInitialState P (participantAt conditions organizer entropy)).mapError .ceremony)
  writeJsonPretty conditions .state (state.json)
  return ()

def cmdContribute (contributor : String) (entropy : Bytes32) : SetupProcedure G Unit := do
  ensureOutDir conditions
  let state ← readState formats conditions
  let updatedState ← Procedure.lift
    ((appendContribution P state (participantAt conditions contributor entropy)).mapError .ceremony)
  writeJsonPretty conditions .state (updatedState.json)
  let _ ← Procedure.lift (updatedState.contributions.getLast?.okOr .noContribution)
  return ()

/-- The metadata of the keys of a state. -/
def setupMetadata (state : CeremonyState) (circuitMetadata : ZkTransferSetupCircuitMetadata)
    (now : UInt64) : SetupMetadata where
  version := 1
  ceremonyKind := state.ceremonyKind
  curve := state.curve
  provingSystem := "Groth16"
  transcriptFinalDigestHex := state.lastTranscriptDigestHex
  contributionCount := state.contributions.length
  contributorNames := state.contributions.map (·.contributor)
  provingKeyFile := SetupFile.provingKey.name
  verifyingKeyFile := SetupFile.verifyingKey.name
  circuitMetadata
  generatedAtUnix := now
  notes := [
    "Setup simplifié de démonstration : à remplacer plus tard par une cérémonie multi-parties " ++
      "plus robuste.",
    "Les paramètres produits sont liés à la forme de circuit de référence actuelle (1 entrée, " ++
      "2 sorties).",
    "Aucune entropie brute n'est écrite sur disque ; seuls des digests SHA-256 de transcript " ++
      "sont conservés."]

/-- The proving key of a seed: the parameters of the reference circuit, with the metadata of the
circuit. -/
def generateKeys (seed : Bytes32) :
    Except (SetupCliError G.Error) (G.ProvingKey × ZkTransferSetupCircuitMetadata) := do
  let (circuit, circuitMetadata) ←
    (buildReferenceZkTransferSetupCircuit P).mapError .invalidCircuit
  -- the library synthesizes the circuit, and makes the parameters of its system
  let cs ← (ZkTransferCircuit.generateConstraints P circuit).mapError
    fun e => .trustedSetup (.inl e)
  let provingKey ← ((G.generateParameters cs).run (formats.fromSeed seed)).1.mapError
    fun e => .trustedSetup (.inr e)
  return (provingKey, circuitMetadata)

def cmdFinalize (force : Bool) : SetupProcedure G Unit := do
  ensureOutDir conditions
  let state ← readState formats conditions
  let provingKeyExists ← pathExists conditions .provingKey
  let verifyingKeyExists ← pathExists conditions .verifyingKey
  let metadataExists ← pathExists conditions .metadata
  Procedure.lift (ensure (¬ (¬ force ∧ (provingKeyExists ∨ verifyingKeyExists ∨ metadataExists)))
    .artifactsExist)
  let (provingKey, circuitMetadata) ← Procedure.lift
    (generateKeys P formats (deriveFinalSeed P state))
  writeKeyFile conditions .provingKey (formats.provingKeyBytes provingKey)
  writeKeyFile conditions .verifyingKey (formats.verifyingKeyBytes (G.vk provingKey))
  -- the clock is read when both keys are there
  let now ← Procedure.lift ((nowUnix conditions.clock).mapError .ceremony)
  writeJsonPretty conditions .metadata
    (setupMetadata state circuitMetadata now).json
  return ()

/-- Print the state. -/
def cmdInspect : SetupProcedure G CeremonyState := readState formats conditions

end Commands

/-- The commands of the program. Who takes part brings its own entropy. -/
inductive SetupCommand where
  | init (organizer : String) (entropy : Bytes32) (force : Bool)
  | contribute (contributor : String) (entropy : Bytes32)
  | finalize (force : Bool)
  | inspect

/-- **Keys and metadata of one state**: both keys are whole, and they are made from its seed. -/
structure Finalized (P : Primitives) {G : ProofSystem Fr} (formats : SetupFormats G)
    (files : Files SetupFile) (state : CeremonyState) (provingKey : G.ProvingKey)
    (metadata : SetupMetadata) : Prop where
  made : ∃ circuitMetadata now, metadata = setupMetadata state circuitMetadata now ∧
    generateKeys P formats (deriveFinalSeed P state) = .ok (provingKey, circuitMetadata)
  provingKeyFile : files .provingKey = some (formats.provingKeyBytes provingKey)
  verifyingKeyFile : files .verifyingKey = some (formats.verifyingKeyBytes (G.vk provingKey))

/-- One contribution is added. -/
theorem contributions_appendContribution {P : Primitives} {state state' : CeremonyState}
    {contributor : Participant} (h : appendContribution P state contributor = .ok state') :
    ∃ contribution, state'.contributions = state.contributions ++ [contribution] ∧
      contribution.contributor = contributor.name := by
  obtain ⟨now, -, h⟩ := Except.bind_eq_ok.mp h
  dsimp only at h
  by_cases hlength : state.contributions.length + 1 < 2 ^ 64
  · rw [dif_pos hlength] at h
    obtain rfl := Except.ok.inj h
    exact ⟨_, rfl, rfl⟩
  · rw [dif_neg hlength] at h
    cases h

namespace SetupCommand

/-- Who takes part in the ceremony with a command. -/
def newcomer (conditions : Conditions) : SetupCommand → Option Participant
  | .init organizer entropy _ => some (participantAt conditions organizer entropy)
  | .contribute contributor entropy => some (participantAt conditions contributor entropy)
  | .finalize _ | .inspect => none

variable (P : Primitives) {G : ProofSystem Fr} (formats : SetupFormats G) (conditions : Conditions)

def run : SetupCommand → SetupProcedure G Unit
  | .init organizer entropy force => cmdInit P conditions organizer entropy force
  | .contribute contributor entropy => cmdContribute P formats conditions contributor entropy
  | .finalize force => cmdFinalize P formats conditions force
  | .inspect => do
    let _ ← cmdInspect formats conditions
    return ()

/-! ## What a command does -/

/-- How far `finalize` gets with its three files, and whether it succeeds. -/
inductive FinalizeWrites (files : Files SetupFile) (state : CeremonyState)
    (provingKey : G.ProvingKey) (circuitMetadata : ZkTransferSetupCircuitMetadata) :
    Bool → Files SetupFile → Prop
  | provingKey (hwrite : ¬ (conditions.writes .provingKey).flushed.Silent) :
    FinalizeWrites files state provingKey circuitMetadata false
      (Function.update files .provingKey ((conditions.writes .provingKey).flushed.leaves
        (formats.provingKeyBytes provingKey) (files .provingKey)))
  | verifyingKey (hwrite : ¬ (conditions.writes .verifyingKey).flushed.Silent) :
    FinalizeWrites files state provingKey circuitMetadata false
      (Function.update
        (Function.update files .provingKey (some (formats.provingKeyBytes provingKey)))
        .verifyingKey ((conditions.writes .verifyingKey).flushed.leaves
          (formats.verifyingKeyBytes (G.vk provingKey)) (files .verifyingKey)))
  | keys (hclock : conditions.clock = none) :
    FinalizeWrites files state provingKey circuitMetadata false
      (Function.update
        (Function.update files .provingKey (some (formats.provingKeyBytes provingKey)))
        .verifyingKey (some (formats.verifyingKeyBytes (G.vk provingKey))))
  | metadata {now : UInt64} (hclock : conditions.clock = some now) :
    FinalizeWrites files state provingKey circuitMetadata (conditions.writes .metadata).Silent
      (Function.update
        (Function.update
          (Function.update files .provingKey (some (formats.provingKeyBytes provingKey)))
          .verifyingKey (some (formats.verifyingKeyBytes (G.vk provingKey))))
        .metadata ((conditions.writes .metadata).leaves
          (setupMetadata state circuitMetadata now).json (files .metadata)))

/-- **What a command does to the files**, and whether it succeeds. Files are written one after the
other, and a command goes on only when nothing is reported. -/
inductive Effect (files : Files SetupFile) : SetupCommand → Bool → Files SetupFile → Prop
  | unchanged {command : SetupCommand} {ok : Bool} (hok : ok = true → command = .inspect) :
    Effect files command ok files
  | started {organizer : String} {entropy : Bytes32} {force : Bool} {state : CeremonyState}
    (hforce : force = false → conditions.queries .state = true → files .state = none)
    (hstate : buildInitialState P (participantAt conditions organizer entropy) = .ok state) :
    Effect files (.init organizer entropy force) (conditions.writes .state).Silent
      (Function.update files .state
        ((conditions.writes .state).leaves (state.json) (files .state)))
  | contributed {contributor : String} {entropy : Bytes32} {content : Bytes}
    {before state : CeremonyState} (hcontent : files .state = some content)
    (hbefore : formats.parseState content = some before)
    (hstate : appendContribution P before (participantAt conditions contributor entropy) =
      .ok state) :
    Effect files (.contribute contributor entropy) (conditions.writes .state).Silent
      (Function.update files .state
        ((conditions.writes .state).leaves (state.json) (files .state)))
  | finalized {force ok : Bool} {content : Bytes} {state : CeremonyState}
    {provingKey : G.ProvingKey} {circuitMetadata : ZkTransferSetupCircuitMetadata}
    {files' : Files SetupFile}
    (hforce : force = false →
      ∀ file, file ≠ .state → conditions.queries file = true → files file = none)
    (hcontent : files .state = some content) (hstate : formats.parseState content = some state)
    (hkeys : generateKeys P formats (deriveFinalSeed P state) = .ok (provingKey, circuitMetadata))
    (hfiles : FinalizeWrites formats conditions files state provingKey circuitMetadata ok files') :
    Effect files (.finalize force) ok files'

variable {P} {formats} {conditions} {files : Files SetupFile}

/-- The files after a command that ends in either way. -/
def Does (P : Primitives) (formats : SetupFormats G) (conditions : Conditions)
    (files : Files SetupFile) (command : SetupCommand) (m : SetupProcedure G Unit) : Prop :=
  m.Ends files (fun _ files' => Effect P formats conditions files command true files')
    fun _ files' => Effect P formats conditions files command false files'

theorem does_cmdInit (organizer : String) (entropy : Bytes32) (force : Bool) :
    Does P formats conditions files (.init organizer entropy force)
      (cmdInit P conditions organizer entropy force) := by
  refine .lift_bind (fun e _ => .unchanged nofun) fun _ _ => ?_
  refine .read_bind nofun fun stateExists hexists => ?_
  refine .lift_bind (fun e _ => .unchanged nofun) fun _ hensure => ?_
  refine .lift_bind (fun e _ => .unchanged nofun) fun state hstate => ?_
  have hforce : force = false → conditions.queries .state = true → files .state = none := by
    obtain rfl := Except.ok.inj hexists
    have hensure := ensure_eq_ok.mp hensure
    rintro rfl hqueries
    simpa [hqueries] using hensure
  have heffect : Effect P formats conditions files (.init organizer entropy force) _ _ :=
    .started hforce (Except.mapError_eq_ok.mp hstate)
  refine .writeFile_bind (fun hfails => ?_) fun hsilent => .pure ?_
  · rwa [decide_eq_false hfails] at heffect
  · rwa [decide_eq_true hsilent] at heffect

/-- The state is read from the file. -/
theorem ends_readState_bind {α : Type} {f : CeremonyState → SetupProcedure G α}
    {returns : α → Files SetupFile → Prop} {fails : SetupCliError G.Error → Files SetupFile → Prop}
    (hfails : ∀ e, fails e files)
    (hrest : ∀ content state, files .state = some content →
      formats.parseState content = some state → (f state).Ends files returns fails) :
    (readState formats conditions >>= f).Ends files returns fails := by
  refine .read_bind (fun e _ => hfails e) fun state hread => ?_
  obtain ⟨content, hcontent, hstate⟩ := Except.bind_eq_ok.mp hread
  have hcontent := Option.okOr_eq_ok.mp hcontent
  split at hcontent
  · exact hrest content state hcontent (Option.okOr_eq_ok.mp hstate)
  · cases hcontent

theorem does_cmdContribute (contributor : String) (entropy : Bytes32) :
    Does P formats conditions files (.contribute contributor entropy)
      (cmdContribute P formats conditions contributor entropy) := by
  refine .lift_bind (fun e _ => .unchanged nofun) fun _ _ => ?_
  refine ends_readState_bind (fun e => .unchanged nofun) fun content before hcontent hbefore => ?_
  refine .lift_bind (fun e _ => .unchanged nofun) fun state hstate => ?_
  have hstate := Except.mapError_eq_ok.mp hstate
  have heffect := Effect.contributed hcontent hbefore hstate
  obtain ⟨contribution, hcontributions, -⟩ := contributions_appendContribution hstate
  refine .writeFile_bind (fun hfails => ?_) fun hsilent => ?_
  · rwa [decide_eq_false hfails] at heffect
  -- the state has a last contribution, so nothing fails after the write
  · refine .lift_bind (fun e hlast => ?_) fun _ _ => .pure ?_
    · rw [hcontributions, List.getLast?_concat] at hlast
      cases hlast
    · rwa [decide_eq_true hsilent] at heffect

theorem does_cmdFinalize (force : Bool) :
    Does P formats conditions files (.finalize force) (cmdFinalize P formats conditions force) := by
  refine .lift_bind (fun e _ => .unchanged nofun) fun _ _ => ?_
  refine ends_readState_bind (fun e => .unchanged nofun) fun content state hcontent hstate => ?_
  refine .read_bind nofun fun provingKeyExists hprovingKey => ?_
  refine .read_bind nofun fun verifyingKeyExists hverifyingKey => ?_
  refine .read_bind nofun fun metadataExists hmetadata => ?_
  refine .lift_bind (fun e _ => .unchanged nofun) fun _ hensure => ?_
  refine .lift_bind (fun e _ => .unchanged nofun) fun keys hkeys => ?_
  obtain ⟨provingKey, circuitMetadata⟩ := keys
  have hforce : force = false →
      ∀ file, file ≠ .state → conditions.queries file = true → files file = none := by
    obtain rfl := Except.ok.inj hprovingKey
    obtain rfl := Except.ok.inj hverifyingKey
    obtain rfl := Except.ok.inj hmetadata
    have hensure := ensure_eq_ok.mp hensure
    rintro rfl file hfile hqueries
    cases file <;> simp_all
  refine .writeFile_bind (fun hfails => ?_) fun hsilent => ?_
  · exact .finalized hforce hcontent hstate hkeys (.provingKey hfails)
  rw [WriteOutcome.leaves_of_silent_flushed hsilent]
  refine .writeFile_bind (fun hfails => ?_) fun hsilent => ?_
  · exact .finalized hforce hcontent hstate hkeys (.verifyingKey hfails)
  rw [WriteOutcome.leaves_of_silent_flushed hsilent]
  refine .lift_bind (fun e hclock => ?_) fun now hclock => ?_
  · cases hnow : conditions.clock with
    | none => exact .finalized hforce hcontent hstate hkeys (.keys hnow)
    | some now =>
      rw [hnow] at hclock
      cases hclock
  have hclock := Option.okOr_eq_ok.mp (Except.mapError_eq_ok.mp hclock)
  have heffect := Effect.finalized hforce hcontent hstate hkeys (.metadata hclock)
  refine .writeFile_bind (fun hfails => ?_) fun hsilent => .pure ?_
  · rwa [decide_eq_false hfails] at heffect
  · rwa [decide_eq_true hsilent] at heffect

/-- **What every command does**, whether it succeeds or not. -/
theorem does_run (command : SetupCommand) :
    Does P formats conditions files command (command.run P formats conditions) := by
  cases command with
  | init organizer entropy force => exact does_cmdInit organizer entropy force
  | contribute contributor entropy => exact does_cmdContribute contributor entropy
  | finalize force => exact does_cmdFinalize force
  | inspect =>
    exact ends_readState_bind (fun e => .unchanged nofun) fun _ _ _ _ =>
      .pure (.unchanged fun _ => rfl)

end SetupCommand

end Prims.Ceremony
