import Prims.Privacy.SetupRuns

/-!
# Ceremonies that complete

On a disk that does not fail, a ceremony ends with the keys and the metadata of all its
participants, in their order.

## Main definitions

* `Conditions.Reliable`: nothing fails
* `ceremonyCalls`: an organizer starts, some contribute, and the keys are made

## Main results

* `ceremony_completes`: the directory at the end
-/

namespace Prims.Ceremony

open Bincode Circuit

/-- The disk and the clock do not fail. -/
structure Conditions.Reliable (conditions : Conditions) : Prop where
  outDir : conditions.outDir = true
  readable : conditions.readable = true
  writes : ∀ file, conditions.writes file = .whole
  clock : ∃ now, conditions.clock = some now

section Commands

variable {P : Primitives} {G : ProofSystem Fr} {formats : SetupFormats G} {conditions : Conditions}
  {files : Files SetupFile}

theorem ensure_ne_error {ε : Type} {c : Prop} [Decidable c] (h : c) {e e' : ε} :
    ensure c e ≠ .error e' := by
  rw [ensure, if_pos h]
  intro herror
  cases herror

theorem buildInitialState_isOk {organizer : Participant} {now : UInt64}
    (hclock : organizer.clock = some now) :
    ∃ state, buildInitialState P organizer = .ok state := by
  rw [buildInitialState, nowUnix, hclock]
  exact ⟨_, rfl⟩

theorem appendContribution_isOk {contributor : Participant} {now : UInt64}
    (hclock : contributor.clock = some now) {state : CeremonyState}
    (hroom : state.contributions.length + 1 < 2 ^ 64) :
    ∃ state', appendContribution P state contributor = .ok state' := by
  rw [appendContribution, nowUnix, hclock]
  exact ⟨_, dif_pos hroom⟩

namespace Conditions.Reliable

theorem ends_cmdInit (h : conditions.Reliable) (hnone : files .state = none) (organizer : String)
    (entropy : Bytes32) (force : Bool) :
    (cmdInit P conditions organizer entropy force : SetupProcedure G Unit).Ends files
      (fun _ files' => ∃ state,
        buildInitialState P (participantAt conditions organizer entropy) = .ok state ∧
          files' = Function.update files .state (some state.json))
      fun _ _ => False := by
  obtain ⟨now, hclock⟩ := h.clock
  obtain ⟨state, hstate⟩ := buildInitialState_isOk (P := P)
    (show (participantAt conditions organizer entropy).clock = some now from hclock)
  refine .lift_bind (fun e he => ensure_ne_error h.outDir he) fun _ _ => ?_
  refine .read_bind nofun fun stateExists hexists => ?_
  refine .lift_bind (fun e he => ?_) fun _ _ => ?_
  · obtain rfl := Except.ok.inj hexists
    exact ensure_ne_error (by simp [hnone]) he
  rw [hstate]
  refine .lift_bind nofun fun state' hstate' => ?_
  obtain rfl : state = state' := Except.ok.inj hstate'
  refine .writeFile_bind (fun hfails => ?_) fun _ => .pure ⟨state, rfl, ?_⟩
  · rw [h.writes] at hfails
    exact hfails trivial
  · rw [h.writes]
    rfl

theorem ends_readState_bind (h : conditions.Reliable) {α : Type}
    {f : CeremonyState → SetupProcedure G α} {returns : α → Files SetupFile → Prop}
    {fails : SetupCliError G.Error → Files SetupFile → Prop} {content : Bytes}
    {state : CeremonyState} (hcontent : files .state = some content)
    (hparse : formats.parseState content = some state)
    (hrest : (f state).Ends files returns fails) :
    (readState formats conditions >>= f).Ends files returns fails := by
  have hread : ((if conditions.readable then files .state else none).okOr .readState >>=
      fun content => (formats.parseState content).okOr .decodeState :
        Except (SetupCliError G.Error) CeremonyState) = .ok state := by
    rw [if_pos h.readable, hcontent]
    exact Option.okOr_eq_ok.mpr hparse
  refine .read_bind (fun e he => ?_) fun state' hstate' => ?_
  · cases hread.symm.trans he
  · obtain rfl := Except.ok.inj (hread.symm.trans hstate')
    exact hrest

theorem ends_cmdContribute (h : conditions.Reliable) {content : Bytes} {state : CeremonyState}
    (hcontent : files .state = some content) (hparse : formats.parseState content = some state)
    (hroom : state.contributions.length + 1 < 2 ^ 64) (contributor : String) (entropy : Bytes32) :
    (cmdContribute P formats conditions contributor entropy).Ends files
      (fun _ files' => ∃ state',
        appendContribution P state (participantAt conditions contributor entropy) = .ok state' ∧
          files' = Function.update files .state (some state'.json))
      fun _ _ => False := by
  obtain ⟨now, hclock⟩ := h.clock
  obtain ⟨state', hstate'⟩ := appendContribution_isOk (P := P)
    (show (participantAt conditions contributor entropy).clock = some now from hclock) hroom
  obtain ⟨contribution, hcontributions, -⟩ := contributions_appendContribution hstate'
  refine .lift_bind (fun e he => ensure_ne_error h.outDir he) fun _ _ => ?_
  refine h.ends_readState_bind hcontent hparse ?_
  rw [hstate']
  refine .lift_bind nofun fun updatedState hupdated => ?_
  obtain rfl : state' = updatedState := Except.ok.inj hupdated
  refine .writeFile_bind (fun hfails => ?_) fun _ => ?_
  · rw [h.writes] at hfails
    exact hfails trivial
  refine .lift_bind (fun e he => ?_) fun _ _ => .pure ⟨state', rfl, ?_⟩
  · rw [hcontributions, List.getLast?_concat] at he
    cases he
  · rw [h.writes]
    rfl

/-- The three files of `finalize`. -/
theorem ends_cmdFinalize (h : conditions.Reliable) {content : Bytes} {state : CeremonyState}
    (hcontent : files .state = some content) (hparse : formats.parseState content = some state)
    (hnone : ∀ file, file ≠ .state → files file = none) {provingKey : G.ProvingKey}
    {circuitMetadata : ZkTransferSetupCircuitMetadata}
    (hkeys : generateKeys P formats (deriveFinalSeed P state) = .ok (provingKey, circuitMetadata))
    (force : Bool) :
    (cmdFinalize P formats conditions force).Ends files
      (fun _ files' => files' .state = files .state ∧ ∃ metadata,
        Finalized P formats files' state provingKey metadata ∧
          files' .metadata = some metadata.json)
      fun _ _ => False := by
  obtain ⟨now, hclock⟩ := h.clock
  have hwhole : ∀ file, (conditions.writes file).flushed = .whole := fun file => by
    rw [h.writes]
    rfl
  refine .lift_bind (fun e he => ensure_ne_error h.outDir he) fun _ _ => ?_
  refine h.ends_readState_bind hcontent hparse ?_
  refine .read_bind nofun fun provingKeyExists hprovingKey => ?_
  refine .read_bind nofun fun verifyingKeyExists hverifyingKey => ?_
  refine .read_bind nofun fun metadataExists hmetadata => ?_
  refine .lift_bind (fun e he => ?_) fun _ _ => ?_
  · obtain rfl := Except.ok.inj hprovingKey
    obtain rfl := Except.ok.inj hverifyingKey
    obtain rfl := Except.ok.inj hmetadata
    refine ensure_ne_error ?_ he
    simp [hnone]
  rw [hkeys]
  refine .lift_bind nofun fun keys hmade => ?_
  obtain rfl := Except.ok.inj hmade
  refine .writeFile_bind (fun hfails => ?_) fun _ => ?_
  · rw [hwhole] at hfails
    exact hfails trivial
  refine .writeFile_bind (fun hfails => ?_) fun _ => ?_
  · rw [hwhole] at hfails
    exact hfails trivial
  rw [hclock]
  refine .lift_bind nofun fun now' hnow => ?_
  obtain rfl : now = now' := Except.ok.inj hnow
  refine .writeFile_bind (fun hfails => ?_) fun _ => .pure ?_
  · rw [h.writes] at hfails
    exact hfails trivial
  rw [hwhole, hwhole, h.writes]
  refine ⟨by simp, setupMetadata state circuitMetadata now, ⟨⟨circuitMetadata, now, rfl, hkeys⟩, ?_,
    ?_⟩, ?_⟩ <;> simp [WriteOutcome.leaves]

end Conditions.Reliable

end Commands

/-! ## Whole ceremonies -/

/-- The names of the participants, in their order. -/
theorem CeremonyOf.contributors_eq {P : Primitives} {participants : List Participant}
    {state : CeremonyState} (h : CeremonyOf P participants state) :
    state.contributions.map (·.contributor) = participants.map (·.name) := by
  obtain ⟨organizer, contributors, rfl, hrun⟩ := h
  induction contributors using List.reverseRecOn generalizing state with
  | nil =>
    obtain ⟨initial, hinitial, hstate⟩ := Except.bind_eq_ok.mp hrun
    obtain rfl := Except.ok.inj hstate
    obtain ⟨now, -, hinitial⟩ := Except.bind_eq_ok.mp hinitial
    obtain rfl := Except.ok.inj hinitial
    rfl
  | append_singleton contributors contributor ih =>
    rw [runCeremony_concat] at hrun
    obtain ⟨before, hbefore, happend⟩ := Except.bind_eq_ok.mp hrun
    obtain ⟨contribution, hcontributions, hname⟩ := contributions_appendContribution happend
    rw [hcontributions, List.map_append, ih hbefore, List.map_singleton, hname, List.map_cons,
      List.map_cons, List.map_append]
    rfl

/-- Somebody contributes, and nothing fails. -/
def SetupCall.Contributes (call : SetupCall) : Prop :=
  call.conditions.Reliable ∧ ∃ contributor entropy, call.command = .contribute contributor entropy

section Runs

variable {P : Primitives} {G : ProofSystem Fr} {formats : SetupFormats G} {call : SetupCall}
  {s : SetupRun}

variable (formats) in
/-- A command that cannot fail. -/
theorem SetupRun.step_of_ends (s : SetupRun) (call : SetupCall) {p : Files SetupFile → Prop}
    (h : (call.command.run P formats call.conditions).Ends s.files (fun _ => p) fun _ _ => False) :
    p (s.step P formats call).files ∧
      (s.step P formats call).announced = announce s.announced call := by
  rw [SetupRun.step]
  rw [Procedure.Ends] at h
  rcases hrun : (call.command.run P formats call.conditions).run s.files with ⟨result, files⟩
  rw [hrun] at h
  cases result with
  | error e => exact h.elim
  | ok u => exact ⟨h, rfl⟩

/-- **A ceremony that goes on**: the state file has the state of all who were told so, and there are
no other files. -/
def SetupRun.Open (P : Primitives) (participants : List Participant) (s : SetupRun) : Prop :=
  s.announced = participants ∧ (∀ file, file ≠ .state → s.files file = none) ∧
    ∃ state : CeremonyState, s.files .state = some state.json ∧ CeremonyOf P participants state

theorem open_start {conditions : Conditions} (hreliable : conditions.Reliable)
    (organizer : String) (entropy : Bytes32) (force : Bool) :
    (SetupRun.of P formats [⟨.init organizer entropy force, conditions⟩]).Open P
      [participantAt conditions organizer entropy] := by
  obtain ⟨⟨state, hstate, hfiles⟩, hannounced⟩ := SetupRun.step_of_ends formats {}
    ⟨.init organizer entropy force, conditions⟩
    (hreliable.ends_cmdInit (P := P) rfl organizer entropy force)
  refine ⟨hannounced, fun file hfile => ?_, state, ?_, ceremonyOf_buildInitialState hstate⟩
  · exact (congrFun hfiles file).trans (Function.update_of_ne hfile ..)
  · exact (congrFun hfiles .state).trans (Function.update_self ..)

theorem SetupRun.Open.contribute (hformats : formats.Lawful) {participants : List Participant}
    (h : s.Open P participants) (hcall : call.Contributes)
    (hroom : participants.length + 1 < 2 ^ 64) :
    (s.step P formats call).Open P (participants ++ call.newcomer.toList) := by
  obtain ⟨hannounced, hnone, state, hstate, hceremony⟩ := h
  obtain ⟨hreliable, contributor, entropy, hcommand⟩ := hcall
  obtain ⟨command, conditions⟩ := call
  obtain rfl : command = .contribute contributor entropy := hcommand
  have hlength : state.contributions.length = participants.length := by
    have hnames := congrArg List.length hceremony.contributors_eq
    rwa [List.length_map, List.length_map] at hnames
  obtain ⟨⟨state', happend, hfiles⟩, htold⟩ := s.step_of_ends formats
    ⟨.contribute contributor entropy, conditions⟩
    (hreliable.ends_cmdContribute (P := P) hstate (hformats.parse_json state) (hlength ▸ hroom)
      contributor entropy)
  refine ⟨?_, fun file hfile => ?_, state', ?_, hceremony.appendContribution happend⟩
  · rw [htold, hannounced]
    rfl
  · rw [hfiles, Function.update_of_ne hfile]
    exact hnone file hfile
  · rw [hfiles, Function.update_self]

/-- **All who contribute** are in the ceremony, in their order. -/
theorem open_contributions (hformats : formats.Lawful) {conditions : Conditions}
    (hreliable : conditions.Reliable) (organizer : String) (entropy : Bytes32) (force : Bool)
    {contributions : List SetupCall} (hcontributions : ∀ call ∈ contributions, call.Contributes)
    (hroom : contributions.length + 1 < 2 ^ 64) :
    (SetupRun.of P formats (⟨.init organizer entropy force, conditions⟩ :: contributions)).Open P
      (participantAt conditions organizer entropy ::
        contributions.filterMap SetupCall.newcomer) := by
  induction contributions using List.reverseRecOn with
  | nil => exact open_start hreliable organizer entropy force
  | append_singleton contributions call ih =>
    rw [List.length_append, List.length_singleton] at hroom
    have hbefore := ih (fun c hc => hcontributions c (List.mem_append_left _ hc)) (by omega)
    have hlength : (contributions.filterMap SetupCall.newcomer).length ≤ contributions.length :=
      List.length_filterMap_le _ _
    have hafter := hbefore.contribute hformats (hcontributions call (by simp))
      (by rw [List.length_cons]; omega)
    have hnewcomer : [call].filterMap SetupCall.newcomer = call.newcomer.toList := by
      cases h : call.newcomer <;> simp [h]
    rw [← List.cons_append, SetupRun.of_concat, List.filterMap_append, hnewcomer]
    exact hafter

end Runs

section Completes

variable {P : Primitives} {G : ProofSystem Fr} {formats : SetupFormats G}

/-- The files at the end. -/
theorem finalized_of_contributions (hformats : formats.Lawful)
    (hkeys : ∀ seed, ∃ keys, generateKeys P formats seed = .ok keys) (organizer : String)
    (entropy : Bytes32) {contributions : List SetupCall} {first last : Conditions}
    (hfirst : first.Reliable) (hlast : last.Reliable)
    (hcontributions : ∀ call ∈ contributions, call.Contributes)
    (hroom : contributions.length + 1 < 2 ^ 64) :
    ∃ state provingKey metadata,
      CeremonyOf P (participantAt first organizer entropy ::
        contributions.filterMap SetupCall.newcomer) state ∧
      (SetupRun.of P formats (⟨.init organizer entropy false, first⟩ :: contributions ++
        [⟨.finalize false, last⟩])).files .state = some state.json ∧
      (SetupRun.of P formats (⟨.init organizer entropy false, first⟩ :: contributions ++
        [⟨.finalize false, last⟩])).files .metadata = some metadata.json ∧
      Finalized P formats (SetupRun.of P formats (⟨.init organizer entropy false, first⟩ ::
        contributions ++ [⟨.finalize false, last⟩])).files state provingKey metadata := by
  obtain ⟨-, hnone, state, hstate, hceremony⟩ :=
    open_contributions hformats hfirst organizer entropy false hcontributions hroom
  obtain ⟨⟨provingKey, circuitMetadata⟩, hmade⟩ := hkeys (deriveFinalSeed P state)
  rw [SetupRun.of_concat]
  obtain ⟨⟨hsame, metadata, hfinal, hmetadata⟩, -⟩ := SetupRun.step_of_ends formats _
    ⟨.finalize false, last⟩
    (hlast.ends_cmdFinalize hstate (hformats.parse_json state) hnone hmade false)
  exact ⟨state, provingKey, metadata, hceremony, hsame.trans hstate, hmetadata, hfinal⟩

end Completes

/-- **A ceremony completes.** An organizer starts it in an empty directory, others contribute, and
the keys are made. When nothing fails and the library makes keys, all participants are in the state
file, in their order, and the metadata name them and describe the keys next to them. -/
theorem ceremony_completes (P : Primitives) {G : ProofSystem Fr} (formats : SetupFormats G)
    (hformats : formats.Lawful) (hkeys : ∀ seed, ∃ keys, generateKeys P formats seed = .ok keys)
    (organizer : String) (entropy : Bytes32) (contributions : List SetupCall)
    (first last : Conditions) (hfirst : first.Reliable) (hlast : last.Reliable)
    (hcontributions : ∀ call ∈ contributions, call.Contributes)
    (hroom : contributions.length + 1 < 2 ^ 64) :
    let run := SetupRun.of P formats
      (⟨.init organizer entropy false, first⟩ :: contributions ++ [⟨.finalize false, last⟩])
    let participants := participantAt first organizer entropy ::
      contributions.filterMap SetupCall.newcomer
    ∃ state provingKey metadata, CeremonyOf P participants state ∧
      run.files .state = some state.json ∧ run.files .metadata = some metadata.json ∧
      Finalized P formats run.files state provingKey metadata ∧
      metadata.contributorNames = participants.map (·.name) := by
  obtain ⟨state, provingKey, metadata, hceremony, hstate, hmetadata, hfinal⟩ :=
    finalized_of_contributions hformats hkeys organizer entropy hfirst hlast hcontributions hroom
  refine ⟨state, provingKey, metadata, hceremony, hstate, hmetadata, hfinal, ?_⟩
  obtain ⟨circuitMetadata, now, rfl, -⟩ := hfinal.made
  exact hceremony.contributors_eq

/-! ## A ceremony of three -/

/-- Nothing fails, at the epoch. -/
def epochConditions : Conditions := { clock := some 0 }

theorem epochConditions_reliable : epochConditions.Reliable :=
  ⟨rfl, rfl, fun _ => rfl, 0, rfl⟩

def sampleContribution (contributor : String) : SetupCall :=
  ⟨.contribute contributor (.replicate 32 0), epochConditions⟩

def sampleContributions : List SetupCall := [sampleContribution "a", sampleContribution "b"]

theorem sampleContributions_contribute : ∀ call ∈ sampleContributions, call.Contributes := by
  intro call hcall
  simp only [sampleContributions, List.mem_cons, List.not_mem_nil, or_false] at hcall
  rcases hcall with rfl | rfl <;> exact ⟨epochConditions_reliable, _, _, rfl⟩

/-- The commands of an organizer and two contributors. -/
def sampleCalls : List SetupCall :=
  ⟨.init "phase1-organizer" (.replicate 32 0) false, epochConditions⟩ :: sampleContributions ++
    [⟨.finalize false, epochConditions⟩]

/-- What holds of the four commands, the last one under any conditions. -/
theorem forall_mem_calls {p : SetupCall → Prop} {last : Conditions}
    (hstart : p ⟨.init "phase1-organizer" (.replicate 32 0) false, epochConditions⟩)
    (hcontribution : ∀ contributor, p (sampleContribution contributor))
    (hlast : p ⟨.finalize false, last⟩) :
    ∀ call ∈ (⟨.init "phase1-organizer" (.replicate 32 0) false, epochConditions⟩ : SetupCall) ::
      sampleContributions ++ [⟨.finalize false, last⟩], p call := by
  rw [List.cons_append, List.forall_mem_cons, List.forall_mem_append, List.forall_mem_singleton]
  refine ⟨hstart, List.forall_mem_cons.mpr ⟨hcontribution "a", ?_⟩, hlast⟩
  exact List.forall_mem_singleton.mpr (hcontribution "b")

/-- The reference circuit has keys. -/
theorem exists_generateKeys (formats : SetupFormats (.transparent Fr noSignatures.sha256))
    (seed : Bytes32) : ∃ keys, generateKeys noSignatures formats seed = .ok keys := by
  obtain ⟨reference, metadata, href⟩ := buildReference_isOk
  have hcs := generateConstraints_of_verify (buildReference_eq_ok href).1
  refine ⟨(reference.constraintSystem, metadata), ?_⟩
  rw [generateKeys, href]
  show (ZkTransferCircuit.generateConstraints noSignatures reference).mapError _ >>= _ = _
  rw [hcs]
  rfl

theorem exists_sampleFormats : ∃ formats : SetupFormats (.transparent Fr noSignatures.sha256),
    formats.Lawful ∧ ∀ seed, ∃ keys, generateKeys noSignatures formats seed = .ok keys := by
  obtain ⟨parseState, hformats⟩ := SetupFormats.exists_lawful
    (G := .transparent Fr noSignatures.sha256) ConstraintSystem.inputs ConstraintSystem.inputs
    fun _ => ()
  exact ⟨_, hformats, exists_generateKeys _⟩

/-- The state file at the end has the ceremony of the three, who were all told so. -/
theorem sampleCalls_recorded : ∃ formats : SetupFormats (.transparent Fr noSignatures.sha256),
    let run := SetupRun.of noSignatures formats sampleCalls
    formats.Lawful ∧ ∃ state : CeremonyState, run.files .state = some state.json ∧
      (∃ participants, participants.Sublist (sampleCalls.filterMap SetupCall.newcomer) ∧
        CeremonyOf noSignatures participants state) ∧
      CeremonyOf noSignatures run.announced state ∧
      run.announced.map (·.name) = ["phase1-organizer", "a", "b"] := by
  obtain ⟨formats, hformats, hkeys⟩ := exists_sampleFormats
  obtain ⟨state, -, -, hceremony, hstate, -⟩ := finalized_of_contributions hformats hkeys
    "phase1-organizer" (.replicate 32 0) epochConditions_reliable epochConditions_reliable
    sampleContributions_contribute (by decide)
  have hhonest : ∀ call ∈ sampleCalls, call.Honest :=
    forall_mem_calls trivial (fun _ => trivial) trivial
  obtain ⟨hsome, htold⟩ := setup_records_participants noSignatures formats hformats sampleCalls
  have hannounced := (htold hhonest).1 _ _ hstate (hformats.parse_json state)
  refine ⟨formats, hformats, state, hstate, hsome _ _ hstate (hformats.parse_json state),
    hannounced, ?_⟩
  rw [← hannounced.contributors_eq, hceremony.contributors_eq]
  rfl

/-- The three are named by the metadata. -/
theorem sampleCalls_complete : ∃ formats : SetupFormats (.transparent Fr noSignatures.sha256),
    formats.Lawful ∧ ∃ metadata,
      (SetupRun.of noSignatures formats sampleCalls).files .metadata =
        some (SetupMetadata.json metadata) ∧
      metadata.contributorNames = ["phase1-organizer", "a", "b"] := by
  obtain ⟨formats, hformats, hkeys⟩ := exists_sampleFormats
  obtain ⟨state, provingKey, metadata, -, -, hmetadata, -, hnames⟩ :=
    ceremony_completes noSignatures formats hformats hkeys "phase1-organizer" (.replicate 32 0)
      sampleContributions epochConditions epochConditions epochConditions_reliable
      epochConditions_reliable sampleContributions_contribute (by decide)
  exact ⟨formats, hformats, metadata, hmetadata, hnames⟩

end Prims.Ceremony
