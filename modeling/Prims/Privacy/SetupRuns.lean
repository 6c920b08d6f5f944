import Prims.Privacy.SetupDirectory

/-!
# Runs of the setup ceremony

Participants run the commands of the ceremony on one directory, one after the other, and the disk
fails as it likes. What can be read from the state file is always the ceremony of some of them, in
the order of their commands and each once. When the disk reports what it loses, it is the ceremony
of those whose commands succeeded since the last start: no contribution is lost or repeated.

## Main definitions

* `SetupRun`: the directory after some commands, and who was told to take part
* `CeremonyOf`: the states that some participants make
* `Traced`, `SetupRun.Acknowledged`: the invariants of the state file

## Main results

* `setup_records_participants`: what the state file records
-/

namespace Prims.Ceremony

open Bincode Circuit

/-- A command, and what the disk and the clock do for it. -/
structure SetupCall where
  command : SetupCommand
  conditions : Conditions

def SetupCall.newcomer (call : SetupCall) : Option Participant :=
  call.command.newcomer call.conditions

/-- A state that these participants make, the first one as the organizer. -/
def CeremonyOf (P : Primitives) (participants : List Participant) (state : CeremonyState) : Prop :=
  ∃ organizer contributors, participants = organizer :: contributors ∧
    runCeremony P organizer contributors = .ok state

/-- The directory after some commands, and those who were told that they take part, since the last
start of the ceremony. -/
structure SetupRun where
  files : Files SetupFile := fun _ => none
  announced : List Participant := []

/-- Who takes part after a command that succeeds. -/
def announce (announced : List Participant) (call : SetupCall) : List Participant :=
  match call.command with
  | .init .. => call.newcomer.toList
  | .contribute .. => announced ++ call.newcomer.toList
  | .finalize _ | .inspect => announced

section Runs

variable (P : Primitives) {G : ProofSystem Fr} (formats : SetupFormats G)

def SetupRun.step (s : SetupRun) (call : SetupCall) : SetupRun :=
  let (result, files) := (call.command.run P formats call.conditions).run s.files
  ⟨files, if result.isOk then announce s.announced call else s.announced⟩

/-- The commands one after the other, from an empty directory. -/
def SetupRun.of (calls : List SetupCall) : SetupRun := calls.foldl (SetupRun.step P formats) {}

variable {P} {formats} {calls : List SetupCall} {call : SetupCall} {s : SetupRun}

theorem SetupRun.of_concat (calls : List SetupCall) (call : SetupCall) :
    SetupRun.of P formats (calls ++ [call]) = (SetupRun.of P formats calls).step P formats call :=
  List.foldl_concat ..

variable (P) (formats) in
/-- A step has the effect of its command. -/
theorem SetupRun.step_effect (s : SetupRun) (call : SetupCall) :
    ∃ ok, call.command.Effect P formats call.conditions s.files ok (s.step P formats call).files ∧
      ((call.command.run P formats call.conditions).run s.files).1.isOk = ok ∧
      (s.step P formats call).announced =
        if ok then announce s.announced call else s.announced := by
  have hdoes : SetupCommand.Does P formats call.conditions s.files call.command
      (call.command.run P formats call.conditions) := SetupCommand.does_run call.command
  rw [SetupRun.step]
  rw [SetupCommand.Does, Procedure.Ends] at hdoes
  rcases hrun : (call.command.run P formats call.conditions).run s.files with ⟨result, files⟩
  rw [hrun] at hdoes
  cases result with
  | error e => exact ⟨false, hdoes, rfl, rfl⟩
  | ok u => exact ⟨true, hdoes, rfl, rfl⟩

/-! ## What the state file holds -/

theorem ceremonyOf_buildInitialState {organizer : Participant} {state : CeremonyState}
    (h : buildInitialState P organizer = .ok state) : CeremonyOf P [organizer] state :=
  ⟨organizer, [], rfl, by rw [runCeremony, h]; rfl⟩

theorem CeremonyOf.appendContribution {participants : List Participant} {contributor : Participant}
    {before state : CeremonyState} (h : CeremonyOf P participants before)
    (happend : appendContribution P before contributor = .ok state) :
    CeremonyOf P (participants ++ [contributor]) state := by
  obtain ⟨organizer, contributors, rfl, hbefore⟩ := h
  refine ⟨organizer, contributors ++ [contributor], rfl, ?_⟩
  rw [runCeremony_concat, hbefore]
  exact happend

/-- A text that can be read is whole. -/
theorem SetupFormats.Lawful.eq_of_parse (hformats : formats.Lawful) {content : Bytes}
    {state state' : CeremonyState} (hpart : content <+: state.json)
    (hparse : formats.parseState content = some state') :
    content = state.json ∧ state = state' := by
  rcases prefix_eq_or_dropLast hpart with rfl | hpart
  · exact ⟨rfl, Option.some.inj ((hformats.parse_json state).symm.trans hparse)⟩
  · rw [hformats.parse_part state content hpart] at hparse
    cases hparse

/-- **The state file has a part of the state of some participants**, in the order of their commands
and each once. -/
def Traced (P : Primitives) (calls : List SetupCall) (files : Files SetupFile) : Prop :=
  ∀ content, files .state = some content → ∃ participants state,
    participants.Sublist (calls.filterMap SetupCall.newcomer) ∧ CeremonyOf P participants state ∧
      content <+: state.json

theorem Traced.exists_of_parse (h : Traced P calls s.files) (hformats : formats.Lawful)
    {content : Bytes} {state : CeremonyState} (hcontent : s.files .state = some content)
    (hparse : formats.parseState content = some state) :
    ∃ participants, participants.Sublist (calls.filterMap SetupCall.newcomer) ∧
      CeremonyOf P participants state := by
  obtain ⟨participants, state', hsub, hceremony, hpart⟩ := h content hcontent
  obtain ⟨-, rfl⟩ := hformats.eq_of_parse hpart hparse
  exact ⟨participants, hsub, hceremony⟩

/-- The old text, or a part of the new one. -/
theorem Traced.write (h : Traced P calls s.files) {participants : List Participant}
    {state : CeremonyState}
    (hsub : participants.Sublist ((calls ++ [call]).filterMap SetupCall.newcomer))
    (hceremony : CeremonyOf P participants state) {files' : Files SetupFile}
    (hfiles : files' .state =
      (call.conditions.writes .state).leaves state.json (s.files .state)) :
    Traced P (calls ++ [call]) files' := by
  intro content hcontent
  rw [hfiles] at hcontent
  rcases WriteOutcome.leaves_eq (call.conditions.writes .state) state.json (s.files .state) with
    ⟨-, hbefore⟩ | ⟨part, hpart, hwritten⟩
  · obtain ⟨participants, state, hsub, hceremony, hpart⟩ := h content (hbefore.symm.trans hcontent)
    refine ⟨participants, state, hsub.trans ?_, hceremony, hpart⟩
    exact (List.sublist_append_left calls [call]).filterMap _
  · cases hcontent.symm.trans hwritten
    exact ⟨participants, state, hsub, hceremony, hpart⟩

/-- `finalize` does not write the state file. -/
theorem SetupCommand.FinalizeWrites.state_eq {conditions : Conditions}
    {files files' : Files SetupFile} {state : CeremonyState} {provingKey : G.ProvingKey}
    {circuitMetadata : ZkTransferSetupCircuitMetadata} {ok : Bool}
    (h : FinalizeWrites formats conditions files state provingKey circuitMetadata ok files') :
    files' .state = files .state := by
  cases h <;> simp

/-- **Any command** leaves a part of the state of some participants. -/
theorem Traced.step (hformats : formats.Lawful) (h : Traced P calls s.files) (call : SetupCall) :
    Traced P (calls ++ [call]) (s.step P formats call).files := by
  have hsub : ∀ participants : List Participant,
      participants.Sublist (calls.filterMap SetupCall.newcomer) →
      participants.Sublist ((calls ++ [call]).filterMap SetupCall.newcomer) := fun participants h =>
    h.trans ((List.sublist_append_left calls [call]).filterMap _)
  have hunchanged : ∀ files : Files SetupFile, files .state = s.files .state →
      Traced P (calls ++ [call]) files := by
    intro files hfiles content hcontent
    obtain ⟨participants, state, hparticipants, hceremony, hpart⟩ :=
      h content (hfiles.symm.trans hcontent)
    exact ⟨participants, state, hsub _ hparticipants, hceremony, hpart⟩
  obtain ⟨ok, heffect, -, -⟩ := s.step_effect P formats call
  generalize (s.step P formats call).files = files' at heffect
  obtain ⟨command, conditions⟩ := call
  cases heffect with
  | unchanged _ => exact hunchanged _ rfl
  | started hforce hstate =>
    refine h.write ?_ (ceremonyOf_buildInitialState hstate) (Function.update_self ..)
    rw [List.filterMap_append]
    exact List.sublist_append_right _ _
  | contributed hcontent hbefore hstate =>
    obtain ⟨participants, hparticipants, hceremony⟩ := h.exists_of_parse hformats hcontent hbefore
    refine h.write ?_ (hceremony.appendContribution hstate) (Function.update_self ..)
    rw [List.filterMap_append]
    exact hparticipants.append (List.Sublist.refl _)
  | finalized _ _ _ _ hfiles => exact hunchanged _ hfiles.state_eq

theorem traced_of (hformats : formats.Lawful) (calls : List SetupCall) :
    Traced P calls (SetupRun.of P formats calls).files := by
  induction calls using List.reverseRecOn with
  | nil => exact nofun
  | append_singleton calls call ih =>
    rw [SetupRun.of_concat]
    exact ih.step hformats call

/-- The disk reports what it loses of the state file. -/
def SetupCall.Honest (call : SetupCall) : Prop := (call.conditions.writes .state).Honest

/-- **Who was told so takes part**: what can be read is the ceremony of those who were told. -/
def SetupRun.Acknowledged (P : Primitives) (formats : SetupFormats G) (s : SetupRun) : Prop :=
  ∀ content state, s.files .state = some content → formats.parseState content = some state →
    CeremonyOf P s.announced state

/-- On an honest disk a write that is not reported replaces the ceremony, and one that is reported
keeps it or leaves nothing that can be read. -/
theorem SetupRun.Acknowledged.write (hformats : formats.Lawful) (h : s.Acknowledged P formats)
    (hhonest : call.Honest) {participants : List Participant} {state : CeremonyState}
    (hceremony : CeremonyOf P participants state) {s' : SetupRun}
    (hfiles : s'.files .state =
      (call.conditions.writes .state).leaves state.json (s.files .state))
    (hannounced : s'.announced =
      if (call.conditions.writes .state).Silent then participants else s.announced) :
    s'.Acknowledged P formats ∧ ((call.conditions.writes .state).Silent →
      s'.files .state = some state.json ∧ CeremonyOf P s'.announced state) := by
  by_cases hsilent : (call.conditions.writes .state).Silent
  · rw [hhonest.leaves_of_silent hsilent] at hfiles
    rw [if_pos hsilent] at hannounced
    refine ⟨fun content state' hcontent hparse => ?_, fun _ => ⟨hfiles, hannounced ▸ hceremony⟩⟩
    cases hcontent.symm.trans hfiles
    cases hparse.symm.trans (hformats.parse_json state)
    exact hannounced ▸ hceremony
  · rw [if_neg hsilent] at hannounced
    refine ⟨fun content state' hcontent hparse => ?_, fun hs => absurd hs hsilent⟩
    rw [hannounced]
    rcases hhonest.leaves_of_not_silent hsilent state.json (s.files .state) with
      hbefore | ⟨part, hpart, hwritten⟩
    · exact h content state' (hbefore.symm.trans (hfiles.symm.trans hcontent)) hparse
    · obtain rfl : content = part :=
        Option.some.inj (hcontent.symm.trans (hfiles.trans hwritten))
      rw [hformats.parse_part state content hpart] at hparse
      cases hparse

/-- **Any command on an honest disk** keeps the ceremony of those who were told, and one that
succeeds in adding somebody leaves a state that can be read. -/
theorem SetupRun.Acknowledged.step (hformats : formats.Lawful) (h : s.Acknowledged P formats)
    (hhonest : call.Honest) :
    (s.step P formats call).Acknowledged P formats ∧
      (((call.command.run P formats call.conditions).run s.files).1.isOk →
        call.newcomer.isSome → ∃ state : CeremonyState,
          (s.step P formats call).files .state = some state.json ∧
            CeremonyOf P (s.step P formats call).announced state) := by
  obtain ⟨ok, heffect, hok, hannounced⟩ := s.step_effect P formats call
  rw [hok]
  generalize s.step P formats call = s' at heffect hannounced ⊢
  have hunchanged : s'.files .state = s.files .state → s'.announced = s.announced →
      s'.Acknowledged P formats := by
    intro hfiles hsame content state hcontent hparse
    rw [hsame]
    exact h content state (hfiles.symm.trans hcontent) hparse
  generalize hfiles : s'.files = files' at heffect
  obtain ⟨command, conditions⟩ := call
  cases heffect with
  | unchanged hinspect =>
    cases ok with
    | false => exact ⟨hunchanged (congrFun hfiles _) hannounced, nofun⟩
    | true =>
      obtain rfl := hinspect rfl
      exact ⟨hunchanged (congrFun hfiles _) hannounced, fun _ => nofun⟩
  | started hforce hstate =>
    obtain ⟨hkept, hadded⟩ := h.write hformats hhonest (ceremonyOf_buildInitialState hstate)
      ((congrFun hfiles _).trans (Function.update_self ..))
      (by simpa [announce, SetupCall.newcomer, SetupCommand.newcomer] using hannounced)
    refine ⟨hkept, fun hsilent _ => ?_⟩
    rw [← hfiles]
    exact ⟨_, hadded (of_decide_eq_true hsilent)⟩
  | contributed hcontent hbefore hstate =>
    have hceremony := (h _ _ hcontent hbefore).appendContribution hstate
    obtain ⟨hkept, hadded⟩ := h.write hformats hhonest hceremony
      ((congrFun hfiles _).trans (Function.update_self ..))
      (by simpa [announce, SetupCall.newcomer, SetupCommand.newcomer] using hannounced)
    refine ⟨hkept, fun hsilent _ => ?_⟩
    rw [← hfiles]
    exact ⟨_, hadded (of_decide_eq_true hsilent)⟩
  | finalized _ _ _ _ hwrites =>
    refine ⟨hunchanged ((congrFun hfiles _).trans hwrites.state_eq) ?_, fun _ => nofun⟩
    rw [hannounced]
    exact ite_self _

theorem acknowledged_of (hformats : formats.Lawful) (calls : List SetupCall)
    (hhonest : ∀ call ∈ calls, call.Honest) :
    (SetupRun.of P formats calls).Acknowledged P formats := by
  induction calls using List.reverseRecOn with
  | nil => exact nofun
  | append_singleton calls call ih =>
    rw [SetupRun.of_concat]
    have hbefore := ih fun c hc => hhonest c (List.mem_append_left _ hc)
    exact (hbefore.step hformats (hhonest call (by simp))).1

end Runs

/-- **The state file records the participants.** After any commands, whatever the disk does, a state
that can be read is the ceremony of some of those who ran a command, in the order of their commands
and each once. When the disk reports what it loses, it is the ceremony of exactly those who were
told that they take part, since the last start; and a command that tells somebody so leaves a state
that can be read. -/
theorem setup_records_participants (P : Primitives) {G : ProofSystem Fr} (formats : SetupFormats G)
    (hformats : formats.Lawful) (calls : List SetupCall) :
    (∀ content state, (SetupRun.of P formats calls).files .state = some content →
      formats.parseState content = some state →
        ∃ participants, participants.Sublist (calls.filterMap SetupCall.newcomer) ∧
          CeremonyOf P participants state) ∧
    ((∀ call ∈ calls, call.Honest) →
      (∀ content state, (SetupRun.of P formats calls).files .state = some content →
        formats.parseState content = some state →
          CeremonyOf P (SetupRun.of P formats calls).announced state) ∧
      ∀ call : SetupCall, call.Honest → call.newcomer.isSome →
        ((call.command.run P formats call.conditions).run
          (SetupRun.of P formats calls).files).1.isOk →
        ∃ state : CeremonyState,
          (SetupRun.of P formats (calls ++ [call])).files .state = some state.json ∧
            CeremonyOf P (SetupRun.of P formats (calls ++ [call])).announced state) := by
  refine ⟨fun content state hcontent hparse => ?_, fun hhonest => ?_⟩
  · exact (traced_of hformats calls).exists_of_parse hformats hcontent hparse
  · have hacknowledged := acknowledged_of (P := P) hformats calls hhonest
    refine ⟨hacknowledged, fun call hcall hnewcomer hok => ?_⟩
    rw [SetupRun.of_concat]
    exact (hacknowledged.step hformats hcall).2 hok hnewcomer

end Prims.Ceremony
