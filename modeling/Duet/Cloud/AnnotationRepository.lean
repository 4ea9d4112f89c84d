import Duet.Cloud.Mappers

/-!
# `FirestoreAnnotationRepository`

The annotations of a piece in the cloud: a layer document for each author and a document for each
note. The arguments `user` and `now` are the signed-in user and the clock.

`guarded` stands around every mutation: a write that the rules deny reads as an ownership
violation.
-/

namespace Duet

open Lib Program

/-- The id of a document. -/
def DocPath.id : DocPath → String
  | .usersByEmail id | .deviceTokens id | .userInbox _ id | .pieces id | .layers _ id
  | .notes _ id | .reads _ id | .rateLimits id => id

namespace Firestore

/-- `_guarded`. -/
def guarded {α : Type} (resourceId : String) : Except CloudFailure α → Except CloudFailure α
  | .error .permissionDenied => .error (.ownershipViolation resourceId none)
  | outcome => outcome

/-- `_nextRev`. -/
def nextRev (data : Option Fields) : Option Int :=
  match data with
  | none => some 1
  | some data => ((data.read "rev").orNull Value.asInt).map fun rev => rev.getD 0 + 1

/-- A layer that has been written can be written again. -/
theorem nextRev_layerToFirestore (layer : InkLayer) (rev : Int) (updatedAt : DateTime) :
    nextRev (some (layerToFirestore layer rev updatedAt)) = some (rev + 1) := by
  simp [nextRev, layerToFirestore, Assoc.ofList, Fields.read_set, Value.orNull]

/-- `_roleFor`. -/
def roleFor (pieceData : Option Fields) (authorId : String) : PieceRole :=
  if pieceData.any fun data => data.read "ownerId" == .string authorId then .owner
  else .collaborator

section

variable (user : String) (now : DateTime)

/-- A layer document written again with other strokes. -/
def rewriteLayer (path : DocPath) (data : Fields) (change : List InkStroke → List InkStroke) :
    Transaction :=
  match layerFromFirestore path.id data, nextRev (some data) with
  | some layer, some rev => .commit [.set path
      (layerToFirestore { layer with strokes := change layer.strokes } rev now)]
  | _, _ => .abort .typeError

def addStroke (pieceId : String) (stroke : InkStroke) : AdminProgram Unit :=
  if stroke.authorId ≠ user then
    fail (.ownershipViolation stroke.id
      (some "cannot add a stroke authored by another participant"))
  else
    let layerRef : DocPath := .layers pieceId stroke.authorId
    transaction (.get layerRef fun
      | some data => rewriteLayer now layerRef data fun strokes => strokes ++ [stroke]
      -- a first stroke: the role is read from the piece
      | none => .get (.pieces pieceId) fun piece => .commit [.set layerRef (layerToFirestore
          ⟨stroke.authorId, roleFor piece stroke.authorId, [stroke], none⟩ 1 now)])

/-- The first layer that holds the stroke; the stroke must be the user's. -/
def strokeHolder (strokeId : String) : List (DocPath × Fields) → AdminProgram DocPath
  | [] => fail (.stateError s!"Unknown stroke: {strokeId}")
  | (path, data) :: rest => do
    let strokes ← orFail (strokesFromLayer data) .typeError
    match strokes.find? fun s => s.id == strokeId with
    | none => strokeHolder strokeId rest
    | some stroke =>
      if stroke.authorId ≠ user then
        fail (.ownershipViolation strokeId (some "not the stroke author"))
      else done path

/-- The first of the documents that holds the stroke, with the stroke. -/
def firstHolding (strokeId : String) (docs : List (DocPath × Fields)) :
    Option (DocPath × InkStroke) :=
  docs.findSome? fun entry => ((strokesFromLayer entry.2).bind fun strokes =>
    strokes.find? fun s => s.id == strokeId).map fun stroke => (entry.1, stroke)

def eraseStroke (pieceId strokeId : String) : AdminProgram Unit := do
  let layersSnapshot ← listDocs (.layersOf pieceId)
  let layerRef ← strokeHolder user strokeId layersSnapshot
  transaction (.get layerRef fun
    | none => .commit []
    | some data => rewriteLayer now layerRef data fun strokes =>
        strokes.filter fun s => s.id != strokeId)

def addAudioNote (pieceId : String) (note : AudioNote) : AdminProgram Unit :=
  if note.authorId ≠ user then
    fail (.ownershipViolation note.id
      (some "cannot add an audio note authored by another participant"))
  else commit [.set (.notes pieceId note.id) (audioNoteToFirestore note)]

def deleteAudioNote (pieceId noteId : String) : AdminProgram Unit := do
  let ref : DocPath := .notes pieceId noteId
  let snapshot ← getDoc ref
  match snapshot with
  | none => fail (.stateError s!"Unknown audio note: {noteId}")
  | some data =>
    if isAudioNoteTombstoned data then fail (.stateError s!"Unknown audio note: {noteId}")
    else if data.read "authorId" ≠ .string user then
      fail (.ownershipViolation noteId (some "not the note author"))
    else commit [.update ref [("deletedAt", .set (toTimestamp now))]]

/-- `_deleteAll`. -/
def deleteAll (query : Query) : AdminProgram Unit := do
  let snapshot ← listDocs query
  if snapshot.isEmpty then done ()
  else commit (snapshot.map fun entry => .delete entry.1)

def clearPiece (pieceId : String) : AdminProgram Unit := do
  deleteAll (.layersOf pieceId)
  deleteAll (.notesOf pieceId)

def replaceAuthorSlice (pieceId authorId : String) (role : PieceRole) (strokes : List InkStroke)
    (audioNotes : List AudioNote) : AdminProgram Unit := do
  let layerRef : DocPath := .layers pieceId authorId
  let previous ← getDoc layerRef
  let existingNotes ← listDocs (.notesBy pieceId authorId)
  let rev ← orFail (nextRev previous) .typeError
  commit (.set layerRef (layerToFirestore ⟨authorId, role, strokes, none⟩ rev now) ::
    ((existingNotes.map fun entry => .delete entry.1) ++
      audioNotes.map fun note => .set (.notes pieceId note.id) (audioNoteToFirestore note)))

def removeAuthorSlice (pieceId authorId : String) : AdminProgram Unit := do
  let existingNotes ← listDocs (.notesBy pieceId authorId)
  commit (.delete (.layers pieceId authorId) :: existingNotes.map fun entry => .delete entry.1)

end

/-! ## Reading -/

def layerDocs (docs : List (DocPath × Fields)) : Option (List InkLayer) :=
  docs.mapM fun entry => layerFromFirestore entry.1.id entry.2

def noteDocs (docs : List (DocPath × Fields)) : Option (List AudioNote) :=
  docs.mapM fun entry => audioNoteFromFirestore entry.1.id entry.2

def snapshotWithTombstones (pieceId : String) : AdminProgram PieceAnnotations := do
  let layersSnapshot ← listDocs (.layersOf pieceId)
  let notesSnapshot ← listDocs (.notesOf pieceId)
  let layers ← orFail (layerDocs layersSnapshot) .typeError
  let audioNotes ← orFail (noteDocs notesSnapshot) .typeError
  done ⟨pieceId, layers, audioNotes⟩

/-- A layer as `watch` emits it: the piece's owner decides the role, where the piece is known. -/
def emittedLayer (ownerId : Option String) (layer : InkLayer) : InkLayer :=
  ⟨layer.ownerId, match ownerId with
    | none => layer.role
    | some owner => if layer.ownerId = owner then .owner else .collaborator,
    layer.strokes, none⟩

/-- What `watch` emits once its three sources have loaded. -/
def watch (pieceId : String) : AdminProgram PieceAnnotations := do
  let layersSnapshot ← listDocs (.layersOf pieceId)
  let notesSnapshot ← listDocs (.notesOf pieceId)
  let piece ← getDoc (.pieces pieceId)
  let layers ← orFail (layerDocs layersSnapshot) .typeError
  let audioNotes ← orFail (noteDocs (notesSnapshot.filter fun entry =>
    !isAudioNoteTombstoned entry.2)) .typeError
  let ownerId ← orFail (match piece with
    | none => some none
    | some data => (data.read "ownerId").orNull Value.asString) .typeError
  done ⟨pieceId, layers.map (emittedLayer ownerId), audioNotes⟩

end Firestore

end Duet
