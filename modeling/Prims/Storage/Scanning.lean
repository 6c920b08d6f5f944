import Prims.Storage.Schema

/-!
# Scanning for notes

The owner of a viewing key finds its notes through the index: an entry under the hint of the key and
a commitment says that a note with this commitment was saved under this hint. The notes themselves
are stored by their commitment alone. A note that is saved again under its commitment, with another
hint or another shard, replaces the old one, and the index entry of the old one stays.

So the scan returns, for every commitment that was ever saved under the hint of the key, the last
note that was saved with this commitment. This is the list of the saved notes that the key can see
when none of them was replaced, and only then.

## Main definitions

* `savedNotes`, `lastNote`: the notes of a run, and the last one with a commitment
* `ScanExact`: the scan returns the visible notes and no others, each once
* `NoneReplaced`: no note that the key can see was replaced

## Main results

* `exists_findNotesForViewingKey`: what the scan returns after a run
* `scan_exact_iff_none_replaced`: when the scan is exact
-/

namespace Prims

open Bincode ByteMap

/-! ## The notes of a run -/

/-- The notes that a run saves, in order. -/
def savedNotes (calls : List StoreCall) : List ViewableNote :=
  calls.filterMap fun
    | ⟨.saveViewableNote note, _⟩ => some note
    | _ => none

/-- The last note that was saved with a commitment. -/
def lastNote (notes : List ViewableNote) (commitment : Bytes) : Option ViewableNote :=
  notes.reverse.find? fun note => note.commitment.toList = commitment

theorem lastNote_concat (notes : List ViewableNote) (note : ViewableNote) (commitment : Bytes) :
    lastNote (notes ++ [note]) commitment =
      if note.commitment.toList = commitment then some note else lastNote notes commitment := by
  rw [lastNote, find?_reverse_concat]
  exact if_congr decide_eq_true_iff rfl rfl

theorem commitment_of_lastNote {notes : List ViewableNote} {commitment : Bytes}
    {note : ViewableNote} (h : lastNote notes commitment = some note) :
    note.commitment.toList = commitment := by
  simpa using List.find?_some h

section Maps

variable {P : Primitives}

/-- Only `save_viewable_note` touches the notes and their index. -/
theorem step_notes (m : TypedMaps) (call : StoreCall) :
    ((m.step P call).notes = m.notes ∧ (m.step P call).viewingIndex = m.viewingIndex ∧
        savedNotes [call] = []) ∨
      ∃ note, call = ⟨.saveViewableNote note, trivial⟩ := by
  obtain ⟨write, hfits⟩ := call
  cases write with
  | saveViewableNote note => exact .inr ⟨note, rfl⟩
  | deployContract sender codeWasm =>
    refine .inl ?_
    dsimp only [TypedMaps.step, TypedMaps.deploy]
    split_ifs <;> exact ⟨rfl, rfl, rfl⟩
  | setContractStorage address key value =>
    refine .inl ?_
    dsimp only [TypedMaps.step, TypedMaps.writeSlots]
    split <;> exact ⟨rfl, rfl, rfl⟩
  | commitContractStorageBatch address writes =>
    refine .inl ?_
    dsimp only [TypedMaps.step, TypedMaps.writeSlots]
    split_ifs
    · exact ⟨rfl, rfl, rfl⟩
    · split <;> exact ⟨rfl, rfl, rfl⟩
  | _ => exact .inl ⟨rfl, rfl, rfl⟩

theorem mapsRun_concat (calls : List StoreCall) (call : StoreCall) :
    mapsRun P (calls ++ [call]) = (mapsRun P calls).step P call := by
  rw [mapsRun, List.foldl_concat]
  rfl

theorem savedNotes_concat (calls : List StoreCall) (call : StoreCall) :
    savedNotes (calls ++ [call]) = savedNotes calls ++ savedNotes [call] :=
  List.filterMap_append

/-- **The notes after a run**: a commitment has the last note that was saved with it. -/
theorem mapsRun_notes (calls : List StoreCall) (commitment : Bytes) :
    (mapsRun P calls).notes commitment = lastNote (savedNotes calls) commitment := by
  induction calls using List.reverseRecOn with
  | nil => rfl
  | append_singleton calls call ih =>
    rw [mapsRun_concat, savedNotes_concat]
    rcases step_notes (P := P) (mapsRun P calls) call with ⟨hnotes, -, hnone⟩ | ⟨note, rfl⟩
    · rw [hnotes, hnone, List.append_nil, ih]
    · have hsingle : savedNotes [⟨.saveViewableNote note, trivial⟩] = [note] := rfl
      rw [hsingle, lastNote_concat]
      dsimp only [TypedMaps.step]
      rw [Function.update_apply, ih]
      exact if_congr eq_comm rfl rfl

/-- **The index after a run** has an entry for every note that was ever saved. -/
theorem mapsRun_viewingIndex (calls : List StoreCall) (hint : Bytes32) (commitment : Bytes) :
    (mapsRun P calls).viewingIndex (hint, commitment) = some () ↔
      ∃ note ∈ savedNotes calls,
        note.viewingHint = hint ∧ note.commitment.toList = commitment := by
  induction calls using List.reverseRecOn with
  | nil => simp [mapsRun, savedNotes]
  | append_singleton calls call ih =>
    rw [mapsRun_concat, savedNotes_concat]
    rcases step_notes (P := P) (mapsRun P calls) call with ⟨-, hindex, hnone⟩ | ⟨note, rfl⟩
    · rw [hindex, hnone, List.append_nil, ih]
    · have hsingle : savedNotes [⟨.saveViewableNote note, trivial⟩] = [note] := rfl
      rw [hsingle]
      dsimp only [TypedMaps.step]
      rw [Function.update_apply]
      simp only [List.mem_append, List.mem_singleton, or_and_right, exists_or, exists_eq_left,
        ← ih]
      split_ifs with heq
      · obtain ⟨rfl, rfl⟩ := Prod.mk.inj heq
        simp
      · refine (or_iff_left ?_).symm
        rintro ⟨rfl, rfl⟩
        exact heq rfl

/-! ## The scan -/

/-- The notes that a scan finds in the tables, by the entries of the index under a hint. -/
def foundNotes (db : Db) (m : TypedMaps) (hint : Bytes32) : List ViewableNote :=
  ((db.entries.scan (viewingHintPrefix hint.toList)).map
    (cut (viewingHintPrefix hint.toList))).filterMap fun entry => m.notes entry.1

variable {db : Db} {m : TypedMaps}

theorem isVisibleTo_iff {note : ViewableNote} {viewingKey hint : Bytes32}
    (hhint : ViewableNote.computeViewingHint P viewingKey = some hint) :
    note.isVisibleTo P viewingKey ↔ hint = note.viewingHint := by
  rw [ViewableNote.isVisibleTo, hhint]
  exact decide_eq_true_iff

theorem Refines.findNotesForViewingKey (h : Refines db m) {viewingKey hint : Bytes32}
    (hhint : ViewableNote.computeViewingHint P viewingKey = some hint) :
    Prims.findNotesForViewingKey P db viewingKey = .ok (foundNotes db m hint) := by
  rw [Prims.findNotesForViewingKey, hhint]
  dsimp only
  rw [foundNotes, List.filterMap_map]
  refine foldlM_eq_ok_filterMap (fun entry _ notes => ?_) []
  rw [h.serves.note]
  show _ = Except.ok (notes ++ (m.notes (entry.1.drop _)).toList)
  cases m.notes (entry.1.drop (viewingHintPrefix hint.toList).length) with
  | none => rw [Option.toList_none, List.append_nil]; rfl
  | some note => rfl

theorem Refines.mem_foundNotes (h : Refines db m) {hint : Bytes32} {note : ViewableNote} :
    note ∈ foundNotes db m hint ↔
      ∃ commitment, m.viewingIndex (hint, commitment) = some () ∧
        m.notes commitment = some note := by
  have hentry : ∀ commitment value, (commitment, value) ∈
      (db.entries.scan (viewingHintPrefix hint.toList)).map (cut (viewingHintPrefix hint.toList)) ↔
        (m.viewingIndex (hint, commitment)).map (fun _ => utf8 "1") = some value := by
    intro commitment value
    rw [mem_map_cut_scan]
    exact iff_of_eq (congrArg (· = some value) (h.records (.viewingHint hint commitment)))
  rw [foundNotes, List.mem_filterMap]
  constructor
  · rintro ⟨⟨commitment, value⟩, hmem, hnote⟩
    obtain ⟨_, hindex, -⟩ := Option.map_eq_some_iff.mp ((hentry commitment value).mp hmem)
    exact ⟨commitment, hindex, hnote⟩
  · rintro ⟨commitment, hindex, hnote⟩
    exact ⟨(commitment, utf8 "1"), (hentry _ _).mpr (by rw [hindex, Option.map_some]), hnote⟩

/-- The notes that are found have different commitments, as the index entries do. -/
theorem foundNotes_nodup (db : Db) (m : TypedMaps) (hint : Bytes32)
    (hnotes : ∀ commitment note, m.notes commitment = some note →
      note.commitment.toList = commitment) : (foundNotes db m hint).Nodup := by
  have hdistinct := pairwise_ne_of_pairwise_lt
    (db.entries.pairwise_map_cut_scan (viewingHintPrefix hint.toList))
  rw [foundNotes, List.nodup_iff_pairwise_ne]
  refine hdistinct.filterMap _ fun a a' hne note hnote note' hnote' heq => hne ?_
  rw [← hnotes _ _ hnote, ← hnotes _ _ hnote', heq]

/-- **The scan after a run**: for every saved note that the key can see, the last note that was
saved with its commitment. -/
theorem exists_findNotesForViewingKey (calls : List StoreCall) (viewingKey : Bytes32) :
    ∃ found, findNotesForViewingKey P (storeRun P calls) viewingKey = .ok found ∧ found.Nodup ∧
      ∀ note, note ∈ found ↔ ∃ saved ∈ savedNotes calls, saved.isVisibleTo P viewingKey ∧
        lastNote (savedNotes calls) saved.commitment.toList = some note := by
  have hrefines := refines_run (P := P) calls
  cases hhint : ViewableNote.computeViewingHint P viewingKey with
  | none =>
    refine ⟨[], by rw [findNotesForViewingKey, hhint], List.nodup_nil, fun note => ?_⟩
    simp [ViewableNote.isVisibleTo, hhint]
  | some hint =>
    refine ⟨_, hrefines.findNotesForViewingKey hhint, ?_, fun note => ?_⟩
    · apply foundNotes_nodup
      intro commitment note hnote
      rw [mapsRun_notes] at hnote
      exact commitment_of_lastNote hnote
    · rw [hrefines.mem_foundNotes]
      constructor
      · rintro ⟨commitment, hindex, hnote⟩
        obtain ⟨saved, hsaved, hshint, rfl⟩ := (mapsRun_viewingIndex _ _ _).mp hindex
        exact ⟨saved, hsaved, (isVisibleTo_iff hhint).mpr hshint.symm,
          by rwa [← mapsRun_notes (P := P)]⟩
      · rintro ⟨saved, hsaved, hvisible, hlast⟩
        have hshint : hint = saved.viewingHint := (isVisibleTo_iff hhint).mp hvisible
        exact ⟨saved.commitment.toList,
          (mapsRun_viewingIndex _ _ _).mpr ⟨saved, hsaved, hshint.symm, rfl⟩,
          by rwa [mapsRun_notes]⟩

end Maps

/-! ## Exactness -/

/-- A scan is exact when it returns only notes that the key can see, each of them once, and every
saved note that the key can see. -/
structure ScanExact (P : Primitives) (saved : List ViewableNote) (viewingKey : Bytes32)
    (found : List ViewableNote) : Prop where
  visible : ∀ note ∈ found, note.isVisibleTo P viewingKey
  nodup : found.Nodup
  complete : ∀ note ∈ saved, note.isVisibleTo P viewingKey → note ∈ found

/-- Every saved note that the key can see is the last one that was saved with its commitment. -/
def NoneReplaced (P : Primitives) (saved : List ViewableNote) (viewingKey : Bytes32) : Prop :=
  ∀ note ∈ saved, note.isVisibleTo P viewingKey →
    lastNote saved note.commitment.toList = some note

/-- **The scan is exact when no visible note was replaced, and only then.** After any run, the scan
for a key succeeds. It returns the saved notes that the key can see, each once and no others, if and
only if no later note was saved over one of them. -/
theorem scan_exact_iff_none_replaced (P : Primitives) (calls : List StoreCall)
    (viewingKey : Bytes32) :
    ∃ found, findNotesForViewingKey P (storeRun P calls) viewingKey = .ok found ∧
      (ScanExact P (savedNotes calls) viewingKey found ↔
        NoneReplaced P (savedNotes calls) viewingKey) := by
  obtain ⟨found, hfound, hnodup, hmem⟩ := exists_findNotesForViewingKey (P := P) calls viewingKey
  refine ⟨found, hfound, fun hexact note hnote hvisible => ?_, fun hlast => ⟨?_, hnodup, ?_⟩⟩
  · obtain ⟨saved, -, -, hsaved⟩ := (hmem note).mp (hexact.complete note hnote hvisible)
    rwa [commitment_of_lastNote hsaved]
  · intro note hnote
    obtain ⟨saved, hsaved, hvisible, hnote⟩ := (hmem note).mp hnote
    rw [hlast saved hsaved hvisible] at hnote
    rwa [← Option.some.inj hnote]
  · intro note hnote hvisible
    exact (hmem note).mpr ⟨note, hnote, hvisible, hlast note hnote hvisible⟩

/-! ### One note for two keys -/

def aliceViewingKey : Bytes32 := .replicate 32 21

def bobViewingKey : Bytes32 := .replicate 32 22

/-- A note of 40 that is saved for both keys. -/
def sharedOpening : NoteOpening := ⟨40, .replicate 32 31, .replicate 32 41⟩

/-- What the hint of a viewing key hashes. -/
def viewingMessage (viewingKey : Bytes32) : Bytes := utf8 "prims-viewing-key" ++ viewingKey.toList

/-- The note as it is saved for a key. -/
def sharedNote (viewingKey : Bytes32) : ViewableNote :=
  ⟨⟨sharedOpening.commitment (.recorded [])⟩, Sha256.hash (viewingMessage viewingKey), 0⟩

/-- What the two notes and the scan hash. -/
def sharedMessages : List Bytes :=
  [sharedOpening.message, viewingMessage aliceViewingKey, viewingMessage bobViewingKey]

theorem sharedMessages_not_collision : ¬ Collision Sha256.hash sharedMessages := by
  apply not_collision_of_table (sharedMessages.map fun m => (m, Sha256.hash m))
  · intro entry hentry
    obtain ⟨m, -, rfl⟩ := List.mem_map.mp hentry
    rfl
  · decide +kernel
  · intro m hm
    rw [List.map_map]
    exact List.mem_map.mpr ⟨m, hm, rfl⟩

theorem computeViewingHint_alice :
    ViewableNote.computeViewingHint (.recorded []) aliceViewingKey =
      some (Sha256.hash (viewingMessage aliceViewingKey)) :=
  if_neg (by decide)

theorem sharedNote_not_visible :
    ¬ (sharedNote bobViewingKey).isVisibleTo (.recorded []) aliceViewingKey := by
  rw [isVisibleTo_iff computeViewingHint_alice]
  intro hhint
  have hmessage : viewingMessage aliceViewingKey = viewingMessage bobViewingKey := by
    refine eq_of_hash_eq sharedMessages_not_collision ?_ ?_ hhint
    · simp [sharedMessages]
    · simp [sharedMessages]
  exact absurd hmessage (by decide)

/-- **A note that is saved for a second key is lost for the first**: the scan with the first key
returns the note of the second, which the first key cannot see, and there is no collision. -/
theorem sharedNote_breaks_scan :
    ViewableNote.new (.recorded []) 40 (.replicate 32 31) aliceViewingKey (.replicate 32 41) 0 =
        .ok (sharedNote aliceViewingKey) ∧
      ViewableNote.new (.recorded []) 40 (.replicate 32 31) bobViewingKey (.replicate 32 41) 0 =
        .ok (sharedNote bobViewingKey) ∧
      findNotesForViewingKey (.recorded []) (storeRun (.recorded [])
          [⟨.saveViewableNote (sharedNote aliceViewingKey), trivial⟩,
            ⟨.saveViewableNote (sharedNote bobViewingKey), trivial⟩]) aliceViewingKey =
        .ok [sharedNote bobViewingKey] ∧
      ¬ (ScanExact (.recorded []) [sharedNote aliceViewingKey, sharedNote bobViewingKey]
          aliceViewingKey [sharedNote bobViewingKey] ∨
        Collision Sha256.hash sharedMessages) := by
  have hlast : lastNote [sharedNote aliceViewingKey, sharedNote bobViewingKey]
      (sharedOpening.commitment (.recorded [])).toList = some (sharedNote bobViewingKey) := by
    refine List.find?_cons_of_pos ?_
    exact decide_eq_true rfl
  refine ⟨rfl, rfl, ?_, ?_⟩
  · obtain ⟨found, hfound, hnodup, hmem⟩ := exists_findNotesForViewingKey (P := .recorded [])
      [⟨.saveViewableNote (sharedNote aliceViewingKey), trivial⟩,
        ⟨.saveViewableNote (sharedNote bobViewingKey), trivial⟩] aliceViewingKey
    have hsingle : found.Perm [sharedNote bobViewingKey] := by
      rw [List.perm_ext_iff_of_nodup hnodup (List.nodup_singleton _)]
      intro note
      rw [hmem, List.mem_singleton]
      constructor
      · rintro ⟨saved, hsaved, -, hnote⟩
        have hcommitment : saved.commitment = sharedOpening.commitment (.recorded []) := by
          rcases List.mem_pair.mp hsaved with rfl | rfl <;> rfl
        rw [hcommitment] at hnote
        exact (Option.some.inj (hlast.symm.trans hnote)).symm
      · rintro rfl
        exact ⟨sharedNote aliceViewingKey, List.mem_cons_self,
          (isVisibleTo_iff computeViewingHint_alice).mpr rfl, hlast⟩
    rw [hfound, List.perm_singleton.mp hsingle]
  · rintro (hexact | hcol)
    · exact sharedNote_not_visible (hexact.visible _ List.mem_cons_self)
    · exact sharedMessages_not_collision hcol

end Prims
