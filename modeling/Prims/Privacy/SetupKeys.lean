import Prims.Privacy.SetupCompletion

/-!
# Keys of a setup ceremony

The metadata describe the keys next to them, as long as a forced `finalize` is not cut short. The
keys are a function of the last digest and the number of contributions, so directories whose
metadata have one digest have the same keys. Without `--force` nothing that was written changes.

## Main definitions

* `SetupCall.Careful`, `SetupCall.Unforced`: the commands that keep keys and metadata together, and
  those that overwrite nothing
* `Described`: a directory whose metadata describe its keys

## Main results

* `metadata_describes_keys`: metadata and keys belong together
* `finalized_directories_agree`: one digest, one pair of keys
* `unforced_commands_preserve`: what was written stays
-/

namespace Prims.Ceremony

open Bincode Circuit

/-! ## Keys and metadata -/

/-- `finalize` sees what is there, and with `--force` it gets as far as creating the metadata. -/
def SetupCall.Careful (call : SetupCall) : Prop :=
  match call.command with
  | .finalize false => ∀ file, file ≠ .state → call.conditions.queries file = true
  | .finalize true => (call.conditions.writes .provingKey).flushed.Silent ∧
      (call.conditions.writes .verifyingKey).flushed.Silent ∧
      call.conditions.writes .metadata ≠ .refused ∧ call.conditions.clock ≠ none
  | .init .. | .contribute .. | .inspect => True

section Keys

variable {P : Primitives} {G : ProofSystem Fr} {formats : SetupFormats G} {calls : List SetupCall}
  {call : SetupCall} {s : SetupRun}

/-- **A metadata file describes the keys** next to it. -/
def Described (P : Primitives) (formats : SetupFormats G) (calls : List SetupCall)
    (files : Files SetupFile) : Prop :=
  ∀ content, files .metadata = some content → ∃ participants state provingKey metadata,
    participants.Sublist (calls.filterMap SetupCall.newcomer) ∧ CeremonyOf P participants state ∧
      Finalized P formats files state provingKey metadata ∧ content <+: metadata.json

/-- Nothing but the state file is written. -/
theorem Described.congr (h : Described P formats calls s.files) {files' : Files SetupFile}
    (hfiles : ∀ file, file ≠ .state → files' file = s.files file) :
    Described P formats (calls ++ [call]) files' := by
  intro content hcontent
  rw [hfiles .metadata nofun] at hcontent
  obtain ⟨participants, state, provingKey, metadata, hsub, hceremony, hfinal, hpart⟩ :=
    h content hcontent
  refine ⟨participants, state, provingKey, metadata, hsub.trans ?_, hceremony, ?_, hpart⟩
  · exact (List.sublist_append_left calls [call]).filterMap _
  · exact ⟨hfinal.made, (hfiles .provingKey nofun).trans hfinal.provingKeyFile,
      (hfiles .verifyingKey nofun).trans hfinal.verifyingKeyFile⟩

/-- **A careful `finalize`** leaves metadata of the keys that it writes, or none. -/
theorem SetupCommand.FinalizeWrites.described {conditions : Conditions} {force ok : Bool}
    {files files' : Files SetupFile} {state : CeremonyState} {provingKey : G.ProvingKey}
    {circuitMetadata : ZkTransferSetupCircuitMetadata}
    (h : FinalizeWrites formats conditions files state provingKey circuitMetadata ok files')
    (hcareful : SetupCall.Careful ⟨.finalize force, conditions⟩)
    (hforce : force = false →
      ∀ file, file ≠ .state → conditions.queries file = true → files file = none)
    (hkeys : generateKeys P formats (deriveFinalSeed P state) = .ok (provingKey, circuitMetadata))
    {content : Bytes} (hcontent : files' .metadata = some content) :
    ∃ metadata, Finalized P formats files' state provingKey metadata ∧
      content <+: metadata.json := by
  have hnone : force = false → files .metadata = none := by
    rintro rfl
    exact hforce rfl .metadata nofun (hcareful .metadata nofun)
  have hforced : force = true ∨ files .metadata = none := by
    cases force with
    | true => exact .inl rfl
    | false => exact .inr (hnone rfl)
  cases h with
  | provingKey hwrite =>
    rcases hforced with rfl | hbefore
    · exact absurd hcareful.1 hwrite
    · simp [hbefore] at hcontent
  | verifyingKey hwrite =>
    rcases hforced with rfl | hbefore
    · exact absurd hcareful.2.1 hwrite
    · simp [hbefore] at hcontent
  | keys hclock =>
    rcases hforced with rfl | hbefore
    · exact absurd hclock hcareful.2.2.2
    · simp [hbefore] at hcontent
  | @metadata now hclock =>
    refine ⟨setupMetadata state circuitMetadata now,
      ⟨⟨circuitMetadata, now, rfl, hkeys⟩, by simp, by simp⟩, ?_⟩
    rw [Function.update_self] at hcontent
    rcases WriteOutcome.leaves_eq (conditions.writes .metadata)
      (setupMetadata state circuitMetadata now).json (files .metadata) with
      ⟨hrefused, hsame⟩ | ⟨part, hpart, hwritten⟩
    · rcases hforced with rfl | hbefore
      · exact absurd hrefused hcareful.2.2.1
      · cases hcontent.symm.trans (hsame.trans hbefore)
    · cases hcontent.symm.trans hwritten
      exact hpart

/-- **Any careful command** leaves metadata of the keys next to them, or none. -/
theorem Described.step (hformats : formats.Lawful) (htraced : Traced P calls s.files)
    (h : Described P formats calls s.files) (hcareful : call.Careful) :
    Described P formats (calls ++ [call]) (s.step P formats call).files := by
  obtain ⟨ok, heffect, -, -⟩ := s.step_effect P formats call
  generalize (s.step P formats call).files = files' at heffect
  obtain ⟨command, conditions⟩ := call
  cases heffect with
  | unchanged _ => exact h.congr fun _ _ => rfl
  | started _ _ => exact h.congr fun file hfile => Function.update_of_ne hfile ..
  | contributed _ _ _ => exact h.congr fun file hfile => Function.update_of_ne hfile ..
  | @finalized force ok text state provingKey circuitMetadata files' hforce htext hstate hkeys
      hwrites =>
    intro content hcontent
    obtain ⟨participants, hsub, hceremony⟩ := htraced.exists_of_parse hformats htext hstate
    obtain ⟨metadata, hfinal, hpart⟩ := hwrites.described hcareful hforce hkeys hcontent
    refine ⟨participants, state, provingKey, metadata, hsub.trans ?_, hceremony, hfinal, hpart⟩
    exact (List.sublist_append_left calls _).filterMap _

theorem described_of (hformats : formats.Lawful) (calls : List SetupCall)
    (hcareful : ∀ call ∈ calls, call.Careful) :
    Described P formats calls (SetupRun.of P formats calls).files := by
  induction calls using List.reverseRecOn with
  | nil => exact nofun
  | append_singleton calls call ih =>
    rw [SetupRun.of_concat]
    have hbefore := ih fun c hc => hcareful c (List.mem_append_left _ hc)
    exact hbefore.step hformats (traced_of hformats calls) (hcareful call (by simp))

end Keys

/-- **The metadata describe the keys.** After careful commands, a metadata file has a part of the
metadata of a ceremony, at most all of it, and the keys next to it are whole and made from the seed
of that ceremony. -/
theorem metadata_describes_keys (P : Primitives) {G : ProofSystem Fr} (formats : SetupFormats G)
    (hformats : formats.Lawful) (calls : List SetupCall) (hcareful : ∀ call ∈ calls, call.Careful)
    (content : Bytes) (hcontent : (SetupRun.of P formats calls).files .metadata = some content) :
    ∃ participants state provingKey metadata,
      participants.Sublist (calls.filterMap SetupCall.newcomer) ∧
      CeremonyOf P participants state ∧
      Finalized P formats (SetupRun.of P formats calls).files state provingKey metadata ∧
      content <+: metadata.json :=
  described_of hformats calls hcareful content hcontent

theorem sampleCalls_careful : ∀ call ∈ sampleCalls, call.Careful :=
  forall_mem_calls trivial (fun _ => trivial) fun _ _ => rfl

/-- The directory of the three has metadata. -/
theorem exists_sampleMetadata :
    ∃ formats : SetupFormats (.transparent Fr noSignatures.sha256), formats.Lawful ∧ ∃ metadata,
      (SetupRun.of noSignatures formats sampleCalls).files .metadata =
        some (SetupMetadata.json metadata) := by
  obtain ⟨formats, hformats, hkeys⟩ := exists_sampleFormats
  obtain ⟨-, -, metadata, -, -, hmetadata, -⟩ := finalized_of_contributions hformats hkeys
    "phase1-organizer" (.replicate 32 0) epochConditions_reliable epochConditions_reliable
    sampleContributions_contribute (by decide)
  exact ⟨formats, hformats, metadata, hmetadata⟩

/-- The metadata of the three describe their keys. -/
theorem sampleMetadata_describes :
    ∃ formats : SetupFormats (.transparent Fr noSignatures.sha256), formats.Lawful ∧
      ∃ state provingKey metadata, Finalized noSignatures formats
        (SetupRun.of noSignatures formats sampleCalls).files state provingKey metadata := by
  obtain ⟨formats, hformats, metadata, hmetadata⟩ := exists_sampleMetadata
  obtain ⟨-, state, provingKey, described, -, -, hfinal, -⟩ :=
    metadata_describes_keys noSignatures formats hformats sampleCalls sampleCalls_careful _
      hmetadata
  exact ⟨formats, hformats, state, provingKey, described, hfinal⟩

/-- Keys are made from the last digest and the number of contributions. -/
theorem Finalized.files_eq {P : Primitives} {G : ProofSystem Fr} {formats : SetupFormats G}
    {files files' : Files SetupFile} {state state' : CeremonyState}
    {provingKey provingKey' : G.ProvingKey} {metadata metadata' : SetupMetadata}
    (h : Finalized P formats files state provingKey metadata)
    (h' : Finalized P formats files' state' provingKey' metadata')
    (hdigest : state.lastTranscriptDigestHex = state'.lastTranscriptDigestHex)
    (hlength : state.contributions.length = state'.contributions.length) :
    files .provingKey = files' .provingKey ∧ files .verifyingKey = files' .verifyingKey ∧
      metadata.circuitMetadata = metadata'.circuitMetadata := by
  obtain ⟨circuitMetadata, now, rfl, hkeys⟩ := h.made
  obtain ⟨circuitMetadata', now', rfl, hkeys'⟩ := h'.made
  have hseed : deriveFinalSeed P state = deriveFinalSeed P state' := by
    rw [deriveFinalSeed, deriveFinalSeed, hdigest, hlength]
  rw [hseed, hkeys'] at hkeys
  cases hkeys
  exact ⟨h.provingKeyFile.trans h'.provingKeyFile.symm,
    h.verifyingKeyFile.trans h'.verifyingKeyFile.symm, rfl⟩

/-- **One digest, one pair of keys.** Two directories whose metadata name one final digest have the
same keys, for the same circuit and of the same contributors, unless the transcripts of their
ceremonies have a collision. -/
theorem finalized_directories_agree (P : Primitives) {G : ProofSystem Fr}
    (formats : SetupFormats G) (hformats : formats.Lawful) (calls calls' : List SetupCall)
    (hcareful : ∀ call ∈ calls, call.Careful) (hcareful' : ∀ call ∈ calls', call.Careful)
    (metadata metadata' : SetupMetadata)
    (h : (SetupRun.of P formats calls).files .metadata = some metadata.json)
    (h' : (SetupRun.of P formats calls').files .metadata = some metadata'.json)
    (hdigest : metadata.transcriptFinalDigestHex = metadata'.transcriptFinalDigestHex) :
    ∃ organizer contributors organizer' contributors',
      (organizer :: contributors).Sublist (calls.filterMap SetupCall.newcomer) ∧
      (organizer' :: contributors').Sublist (calls'.filterMap SetupCall.newcomer) ∧
      ((∀ file, file = .provingKey ∨ file = .verifyingKey →
          (SetupRun.of P formats calls).files file = (SetupRun.of P formats calls').files file) ∧
        metadata.circuitMetadata = metadata'.circuitMetadata ∧
        metadata.contributorNames = metadata'.contributorNames ∨
        Collision P.sha256 (transcriptMessages P (ceremonyLinks P organizer contributors) ++
          transcriptMessages P (ceremonyLinks P organizer' contributors'))) := by
  obtain ⟨_, state, provingKey, described, hsub, ⟨organizer, contributors, rfl, hrun⟩, hfinal,
    hpart⟩ := described_of hformats calls hcareful _ h
  obtain ⟨_, state', provingKey', described', hsub', ⟨organizer', contributors', rfl, hrun'⟩,
    hfinal', hpart'⟩ := described_of hformats calls' hcareful' _ h'
  obtain rfl := SetupMetadata.eq_of_json_isPrefix hpart
  obtain rfl := SetupMetadata.eq_of_json_isPrefix hpart'
  refine ⟨organizer, contributors, organizer', contributors', hsub, hsub', ?_⟩
  refine or_iff_not_imp_right.mpr fun hcol => ?_
  obtain ⟨circuitMetadata, now, hmade, -⟩ := hfinal.made
  obtain ⟨circuitMetadata', now', hmade', -⟩ := hfinal'.made
  have hlast : state.lastTranscriptDigestHex = state'.lastTranscriptDigestHex := by
    rw [hmade, hmade'] at hdigest
    exact hdigest
  have hsame := sameTranscript_of_lastDigest_eq (records_runCeremony hrun)
    (records_runCeremony hrun') hcol hlast
  obtain ⟨hprovingKey, hverifyingKey, hcircuit⟩ := hfinal.files_eq hfinal' hlast hsame.length
  refine ⟨?_, hcircuit, ?_⟩
  · rintro file (rfl | rfl)
    · exact hprovingKey
    · exact hverifyingKey
  · rw [hmade, hmade']
    exact hsame.contributors

/-- The ceremony of the three, with the keys made a second later. -/
def delayedCalls : List SetupCall :=
  ⟨.init "phase1-organizer" (.replicate 32 0) false, epochConditions⟩ :: sampleContributions ++
    [⟨.finalize false, { clock := some 1 }⟩]

theorem delayedCalls_careful : ∀ call ∈ delayedCalls, call.Careful :=
  forall_mem_calls trivial (fun _ => trivial) fun _ _ => rfl

/-- Both directories have metadata, which name one digest. -/
theorem exists_sameDigest :
    ∃ formats : SetupFormats (.transparent Fr noSignatures.sha256), formats.Lawful ∧
      ∃ metadata metadata' : SetupMetadata,
        (SetupRun.of noSignatures formats sampleCalls).files .metadata = some metadata.json ∧
        (SetupRun.of noSignatures formats delayedCalls).files .metadata = some metadata'.json ∧
        metadata.transcriptFinalDigestHex = metadata'.transcriptFinalDigestHex := by
  obtain ⟨formats, hformats, hkeys⟩ := exists_sampleFormats
  have hlast : ({ clock := some 1 } : Conditions).Reliable := ⟨rfl, rfl, fun _ => rfl, 1, rfl⟩
  obtain ⟨state, _, metadata, ⟨_, _, hnames, hrun⟩, -, hmetadata, hfinal⟩ :=
    finalized_of_contributions hformats hkeys "phase1-organizer" (.replicate 32 0)
      epochConditions_reliable epochConditions_reliable sampleContributions_contribute (by decide)
  obtain ⟨state', _, metadata', ⟨_, _, hnames', hrun'⟩, -, hmetadata', hfinal'⟩ :=
    finalized_of_contributions hformats hkeys "phase1-organizer" (.replicate 32 0)
      epochConditions_reliable hlast sampleContributions_contribute (by decide)
  -- the participants determine the state
  cases hnames.symm.trans hnames'
  cases hrun.symm.trans hrun'
  obtain ⟨_, _, hmade, -⟩ := hfinal.made
  obtain ⟨_, _, hmade', -⟩ := hfinal'.made
  refine ⟨formats, hformats, metadata, metadata', hmetadata, hmetadata', ?_⟩
  rw [hmade, hmade']
  rfl

/-- Both directories have the same proving key, unless there is a collision. -/
theorem delayedCalls_agree :
    ∃ formats : SetupFormats (.transparent Fr noSignatures.sha256), formats.Lawful ∧
      ∃ organizer contributors organizer' contributors',
        (organizer :: contributors).Sublist (sampleCalls.filterMap SetupCall.newcomer) ∧
        (organizer' :: contributors').Sublist (delayedCalls.filterMap SetupCall.newcomer) ∧
        ((SetupRun.of noSignatures formats sampleCalls).files .provingKey =
            (SetupRun.of noSignatures formats delayedCalls).files .provingKey ∨
          Collision noSignatures.sha256
            (transcriptMessages noSignatures (ceremonyLinks noSignatures organizer contributors) ++
              transcriptMessages noSignatures
                (ceremonyLinks noSignatures organizer' contributors'))) := by
  obtain ⟨formats, hformats, metadata, metadata', hmetadata, hmetadata', hdigest⟩ :=
    exists_sameDigest
  obtain ⟨organizer, contributors, organizer', contributors', hsub, hsub', hagree⟩ :=
    finalized_directories_agree noSignatures formats hformats sampleCalls delayedCalls
      sampleCalls_careful delayedCalls_careful metadata metadata' hmetadata hmetadata' hdigest
  exact ⟨formats, hformats, organizer, contributors, organizer', contributors', hsub, hsub',
    hagree.imp (fun h => h.1 _ (.inl rfl)) id⟩

/-! ## Without force -/

/-- A command without `--force` that sees the files that are there. -/
def SetupCall.Unforced (call : SetupCall) : Prop :=
  match call.command with
  | .init _ _ force => force = false ∧ call.conditions.queries .state = true
  | .finalize force =>
    force = false ∧ ∀ file, file ≠ .state → call.conditions.queries file = true
  | .contribute .. | .inspect => True

section Unforced

variable {P : Primitives} {G : ProofSystem Fr} {formats : SetupFormats G} {calls : List SetupCall}
  {call : SetupCall} {s : SetupRun}

/-- **The artifacts stay** as they were written. -/
theorem SetupRun.artifact_of_unforced (hunforced : call.Unforced) {file : SetupFile}
    (hfile : file ≠ .state) {content : Bytes} (hcontent : s.files file = some content) :
    (s.step P formats call).files file = some content := by
  obtain ⟨ok, heffect, -, -⟩ := s.step_effect P formats call
  generalize (s.step P formats call).files = files' at heffect ⊢
  obtain ⟨command, conditions⟩ := call
  cases heffect with
  | unchanged _ => exact hcontent
  | started _ _ => rwa [Function.update_of_ne hfile]
  | contributed _ _ _ => rwa [Function.update_of_ne hfile]
  | finalized hforce _ _ _ _ =>
    have hnone := hforce hunforced.1 file hfile (hunforced.2 file hfile)
    cases hcontent.symm.trans hnone

/-- The state file has a part of a state that goes on from this one. -/
def SetupRun.GoesOn (state : CeremonyState) (s : SetupRun) : Prop :=
  ∃ content later, s.files .state = some content ∧ content <+: CeremonyState.json later ∧
    state.contributions <+: later.contributions

/-- **The transcript grows**, or the state file stays. -/
theorem SetupRun.GoesOn.step (hformats : formats.Lawful) {state : CeremonyState}
    (h : s.GoesOn state) (hunforced : call.Unforced) :
    (s.step P formats call).GoesOn state := by
  obtain ⟨content, later, hcontent, hpart, hgrows⟩ := h
  obtain ⟨ok, heffect, -, -⟩ := s.step_effect P formats call
  generalize s.step P formats call = s' at heffect ⊢
  generalize hfiles : s'.files = files' at heffect
  have hunchanged : files' .state = s.files .state → s'.GoesOn state := fun hsame =>
    ⟨content, later, (congrFun hfiles _).trans (hsame.trans hcontent), hpart, hgrows⟩
  obtain ⟨command, conditions⟩ := call
  cases heffect with
  | unchanged _ => exact hunchanged rfl
  | started hforce _ =>
    -- there is a state file, so the ceremony does not start again
    cases hcontent.symm.trans (hforce hunforced.1 hunforced.2)
  | @contributed _ _ text before next htext hbefore hstate =>
    obtain rfl : content = text := Option.some.inj (hcontent.symm.trans htext)
    obtain ⟨-, rfl⟩ := hformats.eq_of_parse hpart hbefore
    obtain ⟨contribution, hcontributions, -⟩ := contributions_appendContribution hstate
    rcases WriteOutcome.leaves_eq (conditions.writes .state) next.json (s.files .state) with
      ⟨-, hsame⟩ | ⟨part, hwhole, hwritten⟩
    · exact hunchanged ((Function.update_self ..).trans hsame)
    · refine ⟨part, next, ?_, hwhole, ?_⟩
      · rw [hfiles, Function.update_self]
        exact hwritten
      · rw [hcontributions]
        exact hgrows.trans (List.prefix_append _ _)
  | finalized _ _ _ _ hwrites => exact hunchanged hwrites.state_eq

end Unforced

/-- **Without `--force` nothing is lost.** After any commands, commands that are not forced and see
what is there leave every artifact as it is; and the contributions of a state that can be read stay
at the start of every state that can be read later. -/
theorem unforced_commands_preserve (P : Primitives) {G : ProofSystem Fr} (formats : SetupFormats G)
    (hformats : formats.Lawful) (calls later : List SetupCall)
    (hunforced : ∀ call ∈ later, call.Unforced) :
    (∀ file content, file ≠ .state → (SetupRun.of P formats calls).files file = some content →
      (SetupRun.of P formats (calls ++ later)).files file = some content) ∧
    ∀ content state, (SetupRun.of P formats calls).files .state = some content →
      formats.parseState content = some state →
        ∀ content' state', (SetupRun.of P formats (calls ++ later)).files .state = some content' →
          formats.parseState content' = some state' →
            state.contributions <+: state'.contributions := by
  have hrun : SetupRun.of P formats (calls ++ later) =
      later.foldl (SetupRun.step P formats) (SetupRun.of P formats calls) := List.foldl_append
  rw [hrun]
  constructor
  · intro file content hfile hcontent
    refine List.foldlRecOn (motive := fun s : SetupRun => s.files file = some content) later _
      hcontent fun s hs call hcall => ?_
    exact s.artifact_of_unforced (hunforced call hcall) hfile hs
  · intro content state hcontent hparse content' state' hcontent' hparse'
    obtain ⟨_, state₀, -, -, hpart⟩ := traced_of hformats calls content hcontent
    obtain ⟨-, rfl⟩ := hformats.eq_of_parse hpart hparse
    have hgoes : (later.foldl (SetupRun.step P formats) (SetupRun.of P formats calls)).GoesOn
        state₀ :=
      List.foldlRecOn later _ ⟨content, state₀, hcontent, hpart, List.prefix_rfl⟩
        fun s hs call hcall => hs.step hformats (hunforced call hcall)
    obtain ⟨text, later', htext, hpart', hgrows⟩ := hgoes
    obtain rfl : content' = text := Option.some.inj (hcontent'.symm.trans htext)
    obtain ⟨-, rfl⟩ := hformats.eq_of_parse hpart' hparse'
    exact hgrows

/-- A late contribution, and a second `finalize`. -/
def lateCalls : List SetupCall :=
  [sampleContribution "late", ⟨.finalize false, epochConditions⟩, ⟨.inspect, epochConditions⟩]

theorem lateCalls_unforced : ∀ call ∈ lateCalls, call.Unforced := by
  intro call hcall
  simp only [lateCalls, List.mem_cons, List.not_mem_nil, or_false] at hcall
  rcases hcall with rfl | rfl | rfl
  · trivial
  · exact ⟨rfl, fun _ _ => rfl⟩
  · trivial

/-- The metadata of the three stay when somebody comes late. -/
theorem lateCalls_preserve :
    ∃ formats : SetupFormats (.transparent Fr noSignatures.sha256), formats.Lawful ∧ ∃ metadata,
      (SetupRun.of noSignatures formats (sampleCalls ++ lateCalls)).files .metadata =
        some (SetupMetadata.json metadata) := by
  obtain ⟨formats, hformats, metadata, hmetadata⟩ := exists_sampleMetadata
  refine ⟨formats, hformats, metadata, ?_⟩
  exact (unforced_commands_preserve noSignatures formats hformats sampleCalls lateCalls
    lateCalls_unforced).1 .metadata _ nofun hmetadata

end Prims.Ceremony
