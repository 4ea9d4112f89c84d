import Duet.Cloud.Mappers

/-!
# The activity triggers

`onLayerWrite` and `onNoteWrite`: a function that is told of a write moves the piece's `updatedAt`
and the editor's own read watermark, both to the time at which it runs.
-/

namespace Duet

open Lib Program

/-- A write that a trigger is told of: where it was, and the document after it. -/
inductive Activity where
  | layer (pieceId layerId : String) (after : Option Fields)
  | note (pieceId noteId : String) (after : Option Fields)
  deriving DecidableEq, Repr

/-- The activity that a write of a document is. -/
def Activity.of? (after : Option Fields) : DocPath → Option Activity
  | .layers pieceId layerId => some (.layer pieceId layerId after)
  | .notes pieceId noteId => some (.note pieceId noteId after)
  | _ => none

/-- What is written into `reads/{uid}`. -/
def watermark (uid : String) (now : DateTime) : Fields :=
  Assoc.ofList [("uid", .string uid), ("lastOpenedAt", toTimestamp now)]

def bumpPieceActivity (now : DateTime) (pieceId editorUid : String) : AdminProgram Unit :=
  commit [.update (.pieces pieceId) [("updatedAt", .set (toTimestamp now))],
    .merge (.reads pieceId editorUid) (watermark editorUid now)]

/-- The author of a layer is its document id; nothing is done for one that has been removed. -/
def onLayerWrite (now : DateTime) (pieceId layerId : String) (after : Option Fields) :
    AdminProgram Unit :=
  if after.isSome then bumpPieceActivity now pieceId layerId else done ()

def onNoteWrite (now : DateTime) (pieceId : String) (after : Option Fields) : AdminProgram Unit :=
  match after.bind fun fields => (fields.read "authorId").asString with
  | none => done ()
  | some authorId => bumpPieceActivity now pieceId authorId

namespace Activity

/-- The trigger that is told of the write. -/
def trigger (now : DateTime) : Activity → AdminProgram Unit
  | layer pieceId layerId after => onLayerWrite now pieceId layerId after
  | note pieceId _ after => onNoteWrite now pieceId after

def pieceId : Activity → String
  | layer pieceId _ _ | note pieceId _ _ => pieceId

/-- Whom the trigger takes for the editor. -/
def editor? : Activity → Option String
  | layer _ layerId after => if after.isSome then some layerId else none
  | note _ _ after => after.bind fun fields => (fields.read "authorId").asString

theorem trigger_eq (now : DateTime) (activity : Activity) : activity.trigger now =
    match activity.editor? with
    | none => done ()
    | some editorUid => bumpPieceActivity now activity.pieceId editorUid := by
  cases activity with
  | layer pieceId layerId after =>
    rw [trigger, editor?, onLayerWrite]
    split_ifs <;> rfl
  | note pieceId noteId after => rfl

end Activity

/-- The fields of a watermark, in the order of their keys. -/
theorem watermark_eq (uid : String) (now : DateTime) :
    watermark uid now = [("lastOpenedAt", toTimestamp now), ("uid", .string uid)] := by
  have hne : "uid" ≠ "lastOpenedAt" := by decide
  have hlt : "lastOpenedAt" < "uid" := by decide +kernel
  simp only [watermark, Assoc.ofList, List.foldl_cons, List.foldl_nil, Assoc.set, hne, hlt, if_false,
    if_true]

/-- A read document into which a watermark has been merged. -/
def marked (read : Option Fields) (uid : String) (now : DateTime) : Fields :=
  (watermark uid now).foldl (fun merged field => merged.set field.1 field.2) (read.getD [])

theorem get_uid_marked (read : Option Fields) (uid : String) (now : DateTime) :
    (marked read uid now).get "uid" = some (.string uid) := by
  simp [marked, watermark_eq]

theorem get_lastOpenedAt_marked (read : Option Fields) (uid : String) (now : DateTime) :
    (marked read uid now).get "lastOpenedAt" = some (toTimestamp now) := by
  simp [marked, watermark_eq]

/-- What a trigger does when the piece is there: both documents are written. -/
theorem exec_bumpPieceActivity {cloud : Cloud} {pieceId : String} {fields : Fields}
    (h : cloud.doc (.pieces pieceId) = some fields) (now : DateTime) (editorUid : String) :
    (bumpPieceActivity now pieceId editorUid).exec Operation.perform cloud =
      (.ok (), (cloud.store (.pieces pieceId)
        (some (fields.set "updatedAt" (toTimestamp now)))).store (.reads pieceId editorUid)
          (some (marked (cloud.doc (.reads pieceId editorUid)) editorUid now))) := by
  have hupdate : (Write.update (.pieces pieceId) [("updatedAt", .set (toTimestamp now))]).result
      (cloud.doc (.pieces pieceId)) =
        .ok (some (fields.set "updatedAt" (toTimestamp now))) := by
    rw [h]
    rfl
  have hread : (cloud.store (.pieces pieceId) (some (fields.set "updatedAt" (toTimestamp now)))).doc
      (.reads pieceId editorUid) = cloud.doc (.reads pieceId editorUid) :=
    Cloud.doc_store_of_ne _ (by simp) _
  rw [bumpPieceActivity, exec_commit]
  refine Cloud.settle_ok ?_
  rw [Cloud.commit_cons_of_ok hupdate, Cloud.commit_singleton, ← hread]
  exact ⟨_, rfl, rfl⟩

end Duet
