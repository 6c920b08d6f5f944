import Prims.Crypto
import Prims.Lib.HashChain
import Prims.Lib.Text

/-!
# The setup ceremony

The ceremony of `bin/prims-setup.rs`. The organizer starts it, and contributors add to it one after
the other. A contribution has the digest of its entropy, and the digest of the transcript up to it:
the hash of the previous digest, its own entropy digest, the name of its contributor and its number.
The keys are generated from a seed that hashes the last digest and the number of contributions.

The message that is hashed has no delimiters, and the name in it has any length. It can be read all
the same: the number has 8 bytes and comes last, and it says whether the previous digest is there as
32 raw bytes, for the organizer, or as 64 characters of text. The transcript is therefore a hash
chain, and its last digest determines it.

## Main definitions

* `CeremonyState`, `buildInitialState`, `appendContribution`, `deriveFinalSeed`: the ceremony
* `runCeremony`: a whole ceremony, from what its participants put in
* `Link`, `transcriptMessage`, `ceremonyLinks`: the transcript as a hash chain

## Main results

* `transcriptMessage_read`: a message of the transcript can be read
* `records_runCeremony`: the state is a record of the chain
* `ceremony_transcript_binds`: the last digest, or the seed, determines the transcript
-/

namespace Prims.Ceremony

open Bincode

/-! ## The ceremony -/

/-- A failure of the ceremony: the clock of the system is before the epoch. -/
inductive SetupError where
  | invalidClock
  deriving DecidableEq, Repr

/-- A contribution. Its number is a machine word. -/
structure CeremonyContribution where
  index : ℕ
  contributor : String
  contributedAtUnix : UInt64
  entropyDigestHex : String
  transcriptDigestHex : String
  index_lt : index < 2 ^ 64
  deriving DecidableEq, Repr

/-- The state of a ceremony. The length of a vector is a machine word. -/
structure CeremonyState where
  version : UInt32
  ceremonyKind : String
  curve : String
  circuit : String
  contributions : List CeremonyContribution
  lastTranscriptDigestHex : String
  createdAtUnix : UInt64
  updatedAtUnix : UInt64
  length_lt : contributions.length < 2 ^ 64

/-- What a participant puts in: its name, the clock of its system, and random bytes. -/
structure Participant where
  name : String
  clock : Option UInt64
  entropy : Bytes32
  deriving DecidableEq

def nowUnix (clock : Option UInt64) : Except (Fault SetupError) UInt64 :=
  clock.okOr (.err .invalidClock)

def hexEncode (bytes : Bytes32) : String := String.ofList (Text.hexEncode bytes.toList)

section Ceremony

variable (P : Primitives)

def digestBytes (parts : List Bytes) : Bytes32 := P.sha256 parts.flatten

def emptyTranscriptDigest : Bytes32 := digestBytes P [utf8 "prims-zk-setup-empty-transcript"]

def buildInitialState (organizer : Participant) : Except (Fault SetupError) CeremonyState := do
  let now ← nowUnix organizer.clock
  let entropyDigest := digestBytes P
    [utf8 "prims-zk-setup-initial-entropy", utf8 organizer.name, organizer.entropy.toList]
  let transcriptDigest := digestBytes P
    [utf8 "prims-zk-setup-transcript", (emptyTranscriptDigest P).toList, entropyDigest.toList,
      utf8 organizer.name, leBytes 8 0]
  return {
    version := 1
    ceremonyKind := "simplified-participatory-trusted-setup"
    curve := "BLS12-381"
    circuit := "ZkTransferCircuit(1 input, 2 outputs, reference shape)"
    contributions := [{
      index := 0
      contributor := organizer.name
      contributedAtUnix := now
      entropyDigestHex := hexEncode entropyDigest
      transcriptDigestHex := hexEncode transcriptDigest
      index_lt := Nat.two_pow_pos 64 }]
    lastTranscriptDigestHex := hexEncode transcriptDigest
    createdAtUnix := now
    updatedAtUnix := now
    length_lt := by simp }

/-- A contribution is pushed to the vector, which panics when there is no room for it. -/
def appendContribution (state : CeremonyState) (contributor : Participant) :
    Except (Fault SetupError) CeremonyState := do
  let now ← nowUnix contributor.clock
  let index := state.contributions.length
  let previousDigestHex :=
    if state.contributions.isEmpty then hexEncode (emptyTranscriptDigest P)
    else state.lastTranscriptDigestHex
  let entropyDigest := digestBytes P
    [utf8 "prims-zk-setup-contribution", utf8 contributor.name, contributor.entropy.toList,
      utf8 previousDigestHex]
  let transcriptDigest := digestBytes P
    [utf8 "prims-zk-setup-transcript", utf8 previousDigestHex, entropyDigest.toList,
      utf8 contributor.name, leBytes 8 index]
  let contribution : CeremonyContribution := {
    index
    contributor := contributor.name
    contributedAtUnix := now
    entropyDigestHex := hexEncode entropyDigest
    transcriptDigestHex := hexEncode transcriptDigest
    index_lt := state.length_lt }
  if h : state.contributions.length + 1 < 2 ^ 64 then
    return { state with
      contributions := state.contributions ++ [contribution]
      lastTranscriptDigestHex := hexEncode transcriptDigest
      updatedAtUnix := now
      length_lt := by simpa using h }
  else throw .panic

def finalSeedMessage (state : CeremonyState) : Bytes :=
  [utf8 "prims-zk-setup-final-seed", utf8 state.lastTranscriptDigestHex,
    leBytes 8 state.contributions.length].flatten

def deriveFinalSeed (state : CeremonyState) : Bytes32 :=
  digestBytes P [utf8 "prims-zk-setup-final-seed", utf8 state.lastTranscriptDigestHex,
    leBytes 8 state.contributions.length]

/-- A ceremony: the organizer starts it, and the contributors follow in their order. -/
def runCeremony (organizer : Participant) (contributors : List Participant) :
    Except (Fault SetupError) CeremonyState := do
  let state ← buildInitialState P organizer
  contributors.foldlM (appendContribution P) state

/-! ## The transcript as a chain -/

/-- What the transcript says about a contribution. -/
structure Link where
  contributor : String
  entropyDigest : Bytes32
  deriving DecidableEq

/-- What is hashed for a contribution, from its number and the previous digest. -/
def transcriptMessage (index : ℕ) (previous : Bytes32) (link : Link) : Bytes :=
  [utf8 "prims-zk-setup-transcript",
    if index = 0 then previous.toList else utf8 (hexEncode previous),
    link.entropyDigest.toList, utf8 link.contributor, leBytes 8 index].flatten

/-- The digest of a transcript. -/
def transcriptDigest (links : List Link) : Bytes32 :=
  HashChain.digest P.sha256 transcriptMessage 0 (emptyTranscriptDigest P) links

/-- What is hashed for a transcript. -/
def transcriptMessages (links : List Link) : List Bytes :=
  HashChain.messages P.sha256 transcriptMessage 0 (emptyTranscriptDigest P) links

/-- The link of the organizer. -/
def initialLink (organizer : Participant) : Link where
  contributor := organizer.name
  entropyDigest := digestBytes P
    [utf8 "prims-zk-setup-initial-entropy", utf8 organizer.name, organizer.entropy.toList]

/-- The link of a contributor, after some links. -/
def nextLink (links : List Link) (contributor : Participant) : Link where
  contributor := contributor.name
  entropyDigest := digestBytes P
    [utf8 "prims-zk-setup-contribution", utf8 contributor.name, contributor.entropy.toList,
      utf8 (hexEncode (transcriptDigest P links))]

/-- The transcript of a ceremony. -/
def ceremonyLinks (organizer : Participant) (contributors : List Participant) : List Link :=
  contributors.foldl (fun links contributor => links ++ [nextLink P links contributor])
    [initialLink P organizer]

end Ceremony

/-! ## Reading messages -/

theorem hexEncode_injective : Function.Injective hexEncode := by
  intro bytes bytes' h
  exact Subtype.ext (Text.hexEncode_injective (String.ofList_inj.mp h))

theorem utf8Size_hexDigit : ∀ n < 16, (Text.hexDigit n).utf8Size = 1 := by
  decide

theorem length_utf8_hexEncode (bytes : Bytes32) : (utf8 (hexEncode bytes)).length = 64 := by
  rw [hexEncode, length_utf8_ofList, Text.length_hexEncode, bytes.toList_length]
  intro c hc
  obtain ⟨n, hn, rfl⟩ := Text.mem_hexEncode hc
  exact utf8Size_hexDigit n hn

/-- **A message of the transcript can be read**, when its number fits in a machine word. -/
theorem transcriptMessage_read {i j : ℕ} (hi : i < 2 ^ 64) (hj : j < 2 ^ 64) {d d' : Bytes32}
    {link link' : Link} (h : transcriptMessage i d link = transcriptMessage j d' link') :
    i = j ∧ d = d' ∧ link = link' := by
  simp only [transcriptMessage, List.flatten_cons, List.flatten_nil, List.append_nil,
    ← List.append_assoc] at h
  obtain ⟨h, hindex⟩ := List.append_inj' h (by simp)
  obtain rfl : i = j := (leBytes_inj hi hj).mp hindex
  simp only [List.append_assoc, List.append_cancel_left_eq] at h
  have hlength : (if i = 0 then d.toList else utf8 (hexEncode d)).length =
      (if i = 0 then d'.toList else utf8 (hexEncode d')).length := by
    split_ifs
    · rw [d.toList_length, d'.toList_length]
    · rw [length_utf8_hexEncode, length_utf8_hexEncode]
  obtain ⟨hprevious, h⟩ := List.append_inj h hlength
  obtain ⟨hentropy, hname⟩ := List.append_inj h (by simp)
  refine ⟨rfl, ?_, ?_⟩
  · split_ifs at hprevious
    · exact Subtype.ext hprevious
    · exact hexEncode_injective (utf8_injective hprevious)
  · cases link
    cases link'
    rw [Link.mk.injEq]
    exact ⟨utf8_injective hname, Subtype.ext hentropy⟩

/-! ## The state as a record of the chain -/

/-- **The state records a transcript**: the contributions have its links, numbered in order, and the
last digest is the one of the last contribution and the one of the transcript. -/
structure Records (P : Primitives) (links : List Link) (state : CeremonyState) : Prop where
  indices : state.contributions.map (·.index) = List.range links.length
  contributors : state.contributions.map (·.contributor) = links.map (·.contributor)
  entropyDigests : state.contributions.map (·.entropyDigestHex) =
    links.map fun link => hexEncode link.entropyDigest
  lastDigest : state.lastTranscriptDigestHex = hexEncode (transcriptDigest P links)
  lastContribution : state.contributions.getLast?.map (·.transcriptDigestHex) =
    some state.lastTranscriptDigestHex

section Records

variable {P : Primitives} {links : List Link} {state state' : CeremonyState}

theorem Records.length_eq (h : Records P links state) :
    state.contributions.length = links.length := by
  have hlength := congrArg List.length h.contributors
  rwa [List.length_map, List.length_map] at hlength

theorem Records.ne_nil (h : Records P links state) : links ≠ [] := by
  rintro rfl
  have hnil : state.contributions = [] := List.map_eq_nil_iff.mp h.contributors
  have hlast := h.lastContribution
  rw [hnil] at hlast
  cases hlast

/-- The organizer starts the chain. -/
theorem records_buildInitialState {organizer : Participant}
    (h : buildInitialState P organizer = .ok state) :
    Records P [initialLink P organizer] state := by
  obtain ⟨now, -, hstate⟩ := Except.bind_eq_ok.mp h
  obtain rfl := Except.ok.inj hstate
  exact ⟨rfl, rfl, rfl, rfl, rfl⟩

/-- The digest of a transcript with one more link hashes the text of the digest before. -/
theorem transcriptDigest_concat (hne : links ≠ []) (link : Link) :
    transcriptDigest P (links ++ [link]) = digestBytes P
      [utf8 "prims-zk-setup-transcript", utf8 (hexEncode (transcriptDigest P links)),
        link.entropyDigest.toList, utf8 link.contributor, leBytes 8 links.length] := by
  have hindex : 0 + links.length ≠ 0 := by
    rw [Nat.zero_add]
    exact (List.length_pos_iff.mpr hne).ne'
  rw [transcriptDigest, HashChain.digest_concat, transcriptMessage, if_neg hindex, Nat.zero_add]
  rfl

/-- **One contribution** adds its link to the chain. -/
theorem Records.appendContribution (h : Records P links state) {contributor : Participant}
    (happend : appendContribution P state contributor = .ok state') :
    Records P (links ++ [nextLink P links contributor]) state' := by
  have hempty : ¬ state.contributions.isEmpty := by
    rw [List.isEmpty_iff_length_eq_zero, h.length_eq]
    exact (List.length_pos_iff.mpr h.ne_nil).ne'
  have hdigest := transcriptDigest_concat (P := P) h.ne_nil (nextLink P links contributor)
  obtain ⟨now, -, happend⟩ := Except.bind_eq_ok.mp happend
  dsimp only at happend
  split_ifs at happend with hlength
  · obtain rfl := Except.ok.inj happend
    refine ⟨?_, ?_, ?_, ?_, ?_⟩ <;> dsimp only
    · rw [List.map_append, h.indices, List.length_append, List.length_singleton, List.range_succ]
      show _ ++ [state.contributions.length] = _
      rw [h.length_eq]
    · rw [List.map_append, h.contributors, List.map_append]
      rfl
    · rw [List.map_append, h.entropyDigests, List.map_append, h.lastDigest]
      rfl
    · rw [hdigest, h.lastDigest, h.length_eq]
      rfl
    · rw [List.getLast?_concat]
      rfl

theorem runCeremony_concat (organizer : Participant) (contributors : List Participant)
    (contributor : Participant) :
    runCeremony P organizer (contributors ++ [contributor]) =
      (runCeremony P organizer contributors >>= fun state =>
        appendContribution P state contributor) := by
  rw [runCeremony, runCeremony, bind_assoc]
  simp only [List.foldlM_append, List.foldlM_cons, List.foldlM_nil, bind_pure]

/-- **The state is a record of the chain**, after any ceremony. -/
theorem records_runCeremony {organizer : Participant} {contributors : List Participant}
    (h : runCeremony P organizer contributors = .ok state) :
    Records P (ceremonyLinks P organizer contributors) state := by
  induction contributors using List.reverseRecOn generalizing state with
  | nil =>
    obtain ⟨initial, hinitial, h⟩ := Except.bind_eq_ok.mp h
    obtain rfl := Except.ok.inj h
    exact records_buildInitialState hinitial
  | append_singleton contributors contributor ih =>
    rw [runCeremony_concat] at h
    obtain ⟨before, hbefore, h⟩ := Except.bind_eq_ok.mp h
    rw [ceremonyLinks, List.foldl_concat]
    exact (ih hbefore).appendContribution h

end Records

/-! ## Binding -/

/-- Two states with the same contributors and the same entropy digests, in the same order. -/
structure SameTranscript (state state' : CeremonyState) : Prop where
  length : state.contributions.length = state'.contributions.length
  contributors : state.contributions.map (·.contributor) = state'.contributions.map (·.contributor)
  entropyDigests : state.contributions.map (·.entropyDigestHex) =
    state'.contributions.map (·.entropyDigestHex)

section Binding

variable {P : Primitives} {links links' : List Link} {state state' : CeremonyState}

theorem sameTranscript_of_links_eq (h : Records P links state) (h' : Records P links' state')
    (heq : links = links') : SameTranscript state state' where
  length := by rw [h.length_eq, h'.length_eq, heq]
  contributors := by rw [h.contributors, h'.contributors, heq]
  entropyDigests := by rw [h.entropyDigests, h'.entropyDigests, heq]

/-- **The last digest determines the transcript**, unless there is a collision. -/
theorem sameTranscript_of_lastDigest_eq (h : Records P links state) (h' : Records P links' state')
    (hcol : ¬ Collision P.sha256 (transcriptMessages P links ++ transcriptMessages P links'))
    (heq : state.lastTranscriptDigestHex = state'.lastTranscriptDigestHex) :
    SameTranscript state state' := by
  rw [h.lastDigest, h'.lastDigest] at heq
  have hread : ∀ i < 2 ^ 64, ∀ j < 2 ^ 64, ∀ d d' link link',
      transcriptMessage i d link = transcriptMessage j d' link' → i = j ∧ d = d' ∧ link = link' :=
    fun i hi j hj d d' link link' => transcriptMessage_read hi hj
  refine sameTranscript_of_links_eq h h' (HashChain.digest_injective hread h.ne_nil h'.ne_nil ?_ ?_
    hcol (hexEncode_injective heq))
  · rw [← h.length_eq]
    exact state.length_lt.le
  · rw [← h'.length_eq]
    exact state'.length_lt.le

/-- The seed hashes the last digest, which can be read off its message. -/
theorem lastDigest_eq_of_finalSeedMessage_eq
    (h : finalSeedMessage state = finalSeedMessage state') :
    state.lastTranscriptDigestHex = state'.lastTranscriptDigestHex := by
  simp only [finalSeedMessage, List.flatten_cons, List.flatten_nil, List.append_nil,
    List.append_cancel_left_eq] at h
  exact utf8_injective (List.append_inj' h (by simp)).1

end Binding

/-- **The transcript of a ceremony is tamper-evident.** After any ceremony the contributions are
numbered in order, and the last digest is the one of the last contribution. Two ceremonies with the
same last digest, or with the same seed, have the same contributors and the same entropy digests,
unless there is a collision. -/
theorem ceremony_transcript_binds (P : Primitives) (organizer organizer' : Participant)
    (contributors contributors' : List Participant) (state state' : CeremonyState)
    (h : runCeremony P organizer contributors = .ok state)
    (h' : runCeremony P organizer' contributors' = .ok state') :
    state.contributions.map (·.index) = List.range state.contributions.length ∧
    state.contributions.getLast?.map (·.transcriptDigestHex) = some state.lastTranscriptDigestHex ∧
    (state.lastTranscriptDigestHex = state'.lastTranscriptDigestHex →
      SameTranscript state state' ∨ Collision P.sha256
        (transcriptMessages P (ceremonyLinks P organizer contributors) ++
          transcriptMessages P (ceremonyLinks P organizer' contributors'))) ∧
    (deriveFinalSeed P state = deriveFinalSeed P state' →
      SameTranscript state state' ∨ Collision P.sha256
        ([finalSeedMessage state, finalSeedMessage state'] ++
          (transcriptMessages P (ceremonyLinks P organizer contributors) ++
            transcriptMessages P (ceremonyLinks P organizer' contributors')))) := by
  have hrecords := records_runCeremony h
  have hrecords' := records_runCeremony h'
  refine ⟨by rw [hrecords.indices, hrecords.length_eq], hrecords.lastContribution,
    fun hlast => ?_, fun hseed => ?_⟩
  · refine or_iff_not_imp_right.mpr fun hcol => ?_
    exact sameTranscript_of_lastDigest_eq hrecords hrecords' hcol hlast
  · refine or_iff_not_imp_right.mpr fun hcol => ?_
    have hmessage : finalSeedMessage state = finalSeedMessage state' :=
      eq_of_hash_eq hcol (by simp) (by simp) hseed
    refine sameTranscript_of_lastDigest_eq hrecords hrecords' (fun hsub => hcol ?_)
      (lastDigest_eq_of_finalSeedMessage_eq hmessage)
    exact hsub.mono (List.subset_append_right _ _)

/-- A participant with some name, at the epoch and without entropy. -/
def Participant.named (name : String) : Participant := ⟨name, some 0, .replicate 32 0⟩

/-- A ceremony of an organizer and two contributors has the numbers 0, 1 and 2. -/
theorem ceremony_of_three :
    ∃ state, runCeremony (.recorded []) (.named "phase1-organizer") [.named "a", .named "b"] =
        .ok state ∧ state.contributions.map (·.index) = [0, 1, 2] := by
  obtain ⟨state, hstate, hlength⟩ : ∃ state, runCeremony (.recorded []) (.named "phase1-organizer")
      [.named "a", .named "b"] = .ok state ∧ state.contributions.length = 3 := ⟨_, rfl, rfl⟩
  have hindices := (ceremony_transcript_binds (.recorded []) _ _ _ _ state state hstate hstate).1
  rw [hlength] at hindices
  exact ⟨state, hstate, hindices⟩

end Prims.Ceremony
