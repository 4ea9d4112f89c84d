import Duet.Cloud.Documents
import Duet.Domain.Annotation

/-!
# Documents of pieces and annotations

The Firestore shapes of pieces, layers and notes. Times are timestamps, a layer carries a revision
and its time of writing, and a piece carries its participants, which are derived from it.

## Main results

* `pieceFromFirestore_pieceToFirestore`, `layerFromFirestore_layerToFirestore`,
  `audioNoteFromFirestore_audioNoteToFirestore` — what is written is read back.
-/

namespace Duet

open Lib

/-! ## Times -/

/-- `Timestamp.fromDate`. -/
def toTimestamp (t : DateTime) : Value := .timestamp t.micros

/-- `toDate`. -/
def DateTime.ofTimestamp (micros : Int) : Option DateTime :=
  if h : micros.natAbs ≤ 8640000000000000000 then some ⟨micros, h⟩ else none

/-- The cast to a `Timestamp` and its `toDate`. -/
def asDate (value : Value) : Option DateTime := value.asTimestamp.bind DateTime.ofTimestamp

@[simp] theorem asDate_toTimestamp (t : DateTime) : asDate (toTimestamp t) = some t := by
  simp [asDate, toTimestamp, DateTime.ofTimestamp, t.inRange]

/-- A date is read from its timestamp alone. -/
theorem eq_toTimestamp_of_asDate {v : Value} {t : DateTime} (h : asDate v = some t) :
    v = toTimestamp t := by
  obtain ⟨micros, hmicros, hdate⟩ := Option.bind_eq_some_iff.mp h
  obtain rfl : v = .timestamp micros := by cases v <;> simp_all [Value.asTimestamp]
  unfold DateTime.ofTimestamp at hdate
  split_ifs at hdate
  obtain rfl := Option.some.inj hdate
  rfl

@[simp] theorem orNull_asDate_ofOption (t : Option DateTime) :
    Value.orNull asDate (.ofOption toTimestamp t) = some t := by
  cases t with
  | none => rfl
  | some t =>
    change (asDate (toTimestamp t)).map some = _
    rw [asDate_toTimestamp, Option.map_some]

/-! ## Pieces -/

def collaboratorToFirestore (collaborator : Collaborator) : Value :=
  mapOf [("uid", .string collaborator.uid), ("name", .ofOption .string collaborator.name),
    ("email", .ofOption .string collaborator.email)]

def pieceToFirestore (piece : Piece) : Fields :=
  Assoc.ofList [("title", .string piece.title), ("ownerId", .string piece.ownerId),
    ("ownerName", .ofOption .string piece.ownerName),
    ("participantIds", .array (piece.participantIds.map .string)),
    ("collaborators", .array (piece.collaborators.map collaboratorToFirestore)),
    ("basePdfChecksum", .string piece.basePdfChecksum),
    ("createdAt", toTimestamp piece.createdAt), ("updatedAt", toTimestamp piece.updatedAt)]

def collaboratorFrom (entry : Fields) : Option Collaborator := do
  let uid ← (entry.read "uid").asString
  let name ← (entry.read "name").orNull Value.asString
  let email ← (entry.read "email").orNull Value.asString
  pure ⟨uid, name, email⟩

/-- `_collaboratorsFrom`: what is not a list reads as none, what is not a map is passed over. -/
def collaboratorsFrom (raw : Value) : Option (List Collaborator) :=
  match raw with
  | .array items => (items.filterMap Value.asMap).mapM collaboratorFrom
  | _ => some []

/-- `participantIds` is not read. -/
def pieceFromFirestore (id : String) (data : Fields) (basePdfPath : String) : Option Piece := do
  let title ← (data.read "title").asString
  let basePdfChecksum ← (data.read "basePdfChecksum").asString
  let ownerId ← (data.read "ownerId").asString
  let ownerName ← (data.read "ownerName").orNull Value.asString
  let collaborators ← collaboratorsFrom (data.read "collaborators")
  let createdAt ← asDate (data.read "createdAt")
  let updatedAt ← asDate (data.read "updatedAt")
  pure ⟨id, title, basePdfChecksum, basePdfPath, ownerId, ownerName, collaborators, createdAt,
    updatedAt⟩

@[simp] theorem collaboratorsFrom_map (collaborators : List Collaborator) :
    collaboratorsFrom (.array (collaborators.map collaboratorToFirestore)) =
      some collaborators := by
  have hmaps : (collaborators.map collaboratorToFirestore).filterMap Value.asMap =
      collaborators.map fun c => Assoc.ofList [("uid", .string c.uid),
        ("name", .ofOption .string c.name), ("email", .ofOption .string c.email)] := by
    rw [List.filterMap_map, ← List.filterMap_eq_map]
    rfl
  have hentry : ∀ c : Collaborator, collaboratorFrom (Assoc.ofList [("uid", .string c.uid),
      ("name", .ofOption .string c.name), ("email", .ofOption .string c.email)]) =
        some (id c) := by
    intro c
    simp [collaboratorFrom, Assoc.ofList, Fields.read_set]
  rw [collaboratorsFrom, hmaps, mapM_map_eq_some hentry, List.map_id]

/-- A piece that is written and read back is the same, up to the path of its PDF. -/
@[simp] theorem pieceFromFirestore_pieceToFirestore (piece : Piece) (basePdfPath : String) :
    pieceFromFirestore piece.id (pieceToFirestore piece) basePdfPath =
      some { piece with basePdfPath := basePdfPath } := by
  simp [pieceFromFirestore, pieceToFirestore, Assoc.ofList, Fields.read_set]

/-! ## Strokes and layers -/

def inkPointToFirestore (point : InkPoint) : Value :=
  mapOf [("x", .double point.x), ("y", .double point.y)]

def inkPointFromFirestore (json : Value) : Option InkPoint := do
  let fields ← json.asMap
  let x ← (fields.read "x").asNum
  let y ← (fields.read "y").asNum
  pure ⟨x, y⟩

def inkStrokeToFirestore (stroke : InkStroke) : Value :=
  mapOf [("id", .string stroke.id), ("authorId", .string stroke.authorId),
    ("pageIndex", .int stroke.pageIndex), ("colorId", .string stroke.colorId),
    ("points", .array (stroke.points.map inkPointToFirestore))]

def inkStrokeFromFirestore (json : Value) : Option InkStroke := do
  let fields ← json.asMap
  let id ← (fields.read "id").asString
  let authorId ← (fields.read "authorId").asString
  let pageIndex ← (fields.read "pageIndex").asInt
  let colorId ← (fields.read "colorId").asString
  let points ← (← (fields.read "points").asArray).mapM inkPointFromFirestore
  pure ⟨id, authorId, pageIndex, colorId, points⟩

/-- The strokes of a layer document, none without the field. -/
def strokesFromLayer (data : Fields) : Option (List InkStroke) := do
  let items ← (data.read "strokes").orNull Value.asArray
  (items.getD []).mapM inkStrokeFromFirestore

/-- `role.name`. -/
def PieceRole.name : PieceRole → String
  | .owner => "owner"
  | .collaborator => "collaborator"

/-- `_roleFromName`. -/
def roleFromName (name : Option String) : PieceRole :=
  if name = some PieceRole.owner.name then .owner else .collaborator

def layerToFirestore (layer : InkLayer) (rev : Int) (updatedAt : DateTime) : Fields :=
  Assoc.ofList [("ownerId", .string layer.ownerId), ("role", .string layer.role.name),
    ("strokes", .array (layer.strokes.map inkStrokeToFirestore)), ("rev", .int rev),
    ("updatedAt", toTimestamp updatedAt)]

/-- The owner is the id of the document. -/
def layerFromFirestore (uid : String) (data : Fields) : Option InkLayer := do
  let role ← (data.read "role").orNull Value.asString
  let strokes ← strokesFromLayer data
  let updatedAt ← (data.read "updatedAt").orNull asDate
  pure ⟨uid, roleFromName role, strokes, updatedAt⟩

@[simp] theorem inkPointFromFirestore_inkPointToFirestore (point : InkPoint) :
    inkPointFromFirestore (inkPointToFirestore point) = some point := by
  simp [inkPointFromFirestore, inkPointToFirestore, mapOf, Assoc.ofList, Fields.read_set]

@[simp] theorem inkStrokeFromFirestore_inkStrokeToFirestore (stroke : InkStroke) :
    inkStrokeFromFirestore (inkStrokeToFirestore stroke) = some stroke := by
  have hpoints := mapM_map_eq_some inkPointFromFirestore_inkPointToFirestore stroke.points
  simp [inkStrokeFromFirestore, inkStrokeToFirestore, mapOf, Assoc.ofList, Fields.read_set,
    hpoints]

@[simp] theorem roleFromName_name (role : PieceRole) : roleFromName (some role.name) = role := by
  cases role <;> rfl

@[simp] theorem strokesFromLayer_layerToFirestore (layer : InkLayer) (rev : Int)
    (updatedAt : DateTime) :
    strokesFromLayer (layerToFirestore layer rev updatedAt) = some layer.strokes := by
  have hstrokes := mapM_map_eq_some inkStrokeFromFirestore_inkStrokeToFirestore layer.strokes
  simp [strokesFromLayer, layerToFirestore, Assoc.ofList, Fields.read_set, Value.orNull, hstrokes]

/-- A layer that is written and read back is the same, with the time of its writing. -/
@[simp] theorem layerFromFirestore_layerToFirestore (uid : String) (layer : InkLayer) (rev : Int)
    (updatedAt : DateTime) : layerFromFirestore uid (layerToFirestore layer rev updatedAt) =
      some ⟨uid, layer.role, layer.strokes, some updatedAt⟩ := by
  have hrole : Fields.read (layerToFirestore layer rev updatedAt) "role" =
      .string layer.role.name := by simp [layerToFirestore, Assoc.ofList, Fields.read_set]
  have htime : Fields.read (layerToFirestore layer rev updatedAt) "updatedAt" =
      .ofOption toTimestamp (some updatedAt) := by
    simp [layerToFirestore, Assoc.ofList, Fields.read_set, Value.ofOption]
  rw [layerFromFirestore, hrole, htime]
  simp

/-! ## Notes -/

def regionToFirestore (region : Region) : Value :=
  mapOf [("pageIndex", .int region.pageIndex), ("left", .double region.left),
    ("top", .double region.top), ("width", .double region.width),
    ("height", .double region.height)]

def regionFromFirestore (json : Value) : Option Region := do
  let fields ← json.asMap
  let pageIndex ← (fields.read "pageIndex").asInt
  let left ← (fields.read "left").asNum
  let top ← (fields.read "top").asNum
  let width ← (fields.read "width").asNum
  let height ← (fields.read "height").asNum
  pure ⟨pageIndex, left, top, width, height⟩

def audioNoteToFirestore (note : AudioNote) : Fields :=
  Assoc.ofList [("id", .string note.id), ("authorId", .string note.authorId),
    ("audioAssetId", .string note.audioAssetId), ("pageIndex", .int note.pageIndex),
    ("durationMs", .int note.durationMs), ("region", regionToFirestore note.region),
    ("createdAt", toTimestamp note.createdAt),
    ("deletedAt", .ofOption toTimestamp note.deletedAt)]

/-- The id of the document stands in for a missing id. -/
def audioNoteFromFirestore (id : String) (data : Fields) : Option AudioNote := do
  let noteId ← (data.read "id").orNull Value.asString
  let authorId ← (data.read "authorId").asString
  let audioAssetId ← (data.read "audioAssetId").asString
  let pageIndex ← (data.read "pageIndex").asInt
  let durationMs ← (data.read "durationMs").asInt
  let region ← regionFromFirestore (data.read "region")
  let createdAt ← asDate (data.read "createdAt")
  let deletedAt ← (data.read "deletedAt").orNull asDate
  pure ⟨noteId.getD id, authorId, audioAssetId, pageIndex, durationMs, region, createdAt,
    deletedAt⟩

def isAudioNoteTombstoned (data : Fields) : Bool := data.read "deletedAt" != .null

@[simp] theorem regionFromFirestore_regionToFirestore (region : Region) :
    regionFromFirestore (regionToFirestore region) = some region := by
  simp [regionFromFirestore, regionToFirestore, mapOf, Assoc.ofList, Fields.read_set]

theorem read_audioNoteToFirestore_authorId (note : AudioNote) :
    Fields.read (audioNoteToFirestore note) "authorId" = .string note.authorId := by
  simp [audioNoteToFirestore, Assoc.ofList, Fields.read_set]

theorem read_audioNoteToFirestore_deletedAt (note : AudioNote) :
    Fields.read (audioNoteToFirestore note) "deletedAt" = .ofOption toTimestamp note.deletedAt := by
  simp [audioNoteToFirestore, Assoc.ofList, Fields.read_set]

@[simp] theorem audioNoteFromFirestore_audioNoteToFirestore (id : String) (note : AudioNote) :
    audioNoteFromFirestore id (audioNoteToFirestore note) = some note := by
  have hdeleted := read_audioNoteToFirestore_deletedAt note
  rw [audioNoteFromFirestore, hdeleted]
  simp [audioNoteToFirestore, Assoc.ofList, Fields.read_set]

@[simp] theorem isAudioNoteTombstoned_audioNoteToFirestore (note : AudioNote) :
    isAudioNoteTombstoned (audioNoteToFirestore note) = note.isTombstoned := by
  rw [isAudioNoteTombstoned, read_audioNoteToFirestore_deletedAt, AudioNote.isTombstoned]
  cases note.deletedAt <;> simp [Value.ofOption, toTimestamp]

end Duet
