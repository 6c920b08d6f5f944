import Prims.Privacy.Notes
import Prims.Storage.Backend

/-!
# Notes in the store

`save_viewable_note`, `get_viewable_note` and `find_notes_for_viewing_key`: a note is stored under
its commitment, and an index entry under its viewing hint and its commitment lets the owner of the
viewing key find it.
-/

namespace Prims

open Bincode

instance : Codec Note :=
  Codec.ofEquiv (β := Bytes32)
    { toFun n := n.commitment
      invFun := fun commitment => ⟨commitment⟩ }

instance : Codec ViewableNote :=
  Codec.ofEquiv (β := Note × Bytes32 × UInt16)
    { toFun n := (n.note, n.viewingHint, n.shardId)
      invFun := fun (note, viewingHint, shardId) => ⟨note, viewingHint, shardId⟩ }

def ViewableNote.commitment (note : ViewableNote) : Bytes32 := note.note.commitment

def saveViewableNote (note : ViewableNote) : StorageM Unit := do
  put (anonymousNoteKey note.commitment.toList) (serialize note)
  put (viewingHintNoteKey note.viewingHint.toList note.commitment.toList) (utf8 "1")

def getViewableNote (db : Db) (commitment : Bytes) : Except StorageError (Option ViewableNote) :=
  db.getRecord (anonymousNoteKey commitment)

/-- Look up the commitment of every index entry under the hint of the key. -/
def findNotesForViewingKey (P : Primitives) (db : Db) (viewingKey : Bytes32) :
    Except StorageError (List ViewableNote) :=
  match ViewableNote.computeViewingHint P viewingKey with
  | none => .ok []
  | some viewingHint =>
    let keyPrefix := viewingHintPrefix viewingHint.toList
    (db.entries.scan keyPrefix).foldlM (fun notes entry => do
      match ← getViewableNote db (entry.1.drop keyPrefix.length) with
      | some note => return notes ++ [note]
      | none => return notes) []

end Prims
