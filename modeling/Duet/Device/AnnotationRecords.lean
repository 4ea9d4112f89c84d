import Duet.Cloud.Mappers
import Duet.Device.AnnotationRepository
import Duet.Device.PieceRecords

/-!
# The records of annotations

`LocalAnnotationRepository` keeps the annotations of a piece as JSON, in which instants are local
times without a zone and a layer has no time of writing; Firestore keeps them as documents, with
timestamps. Annotations go from one store to the other when a piece is migrated or mirrored.

## Main results

* `pieceAnnotationsFromJson_toJson_iff` — when annotations are read back from their JSON.
* `Store.codecs_iff` — and when they survive any chain of stores.
-/

namespace Duet

open Lib

/-- The instants of the note are read back from their texts. -/
def AudioNote.ReadsBack (zone : TimeZone) (note : AudioNote) : Prop :=
  zone.ReadsBack note.createdAt ∧ ∀ t ∈ note.deletedAt, zone.ReadsBack t

def PieceAnnotations.ReadsBack (zone : TimeZone) (annotations : PieceAnnotations) : Prop :=
  ∀ note ∈ annotations.audioNotes, note.ReadsBack zone

/-- The annotations with one time of writing on every layer. -/
def PieceAnnotations.writtenAt (annotations : PieceAnnotations) (updatedAt : Option DateTime) :
    PieceAnnotations :=
  { annotations with
    layers := annotations.layers.map fun layer => { layer with updatedAt := updatedAt } }

namespace AnnotationRecords

/-! ## JSON -/

def inkPointToJson (point : InkPoint) : Value :=
  mapOf [("x", .double point.x), ("y", .double point.y)]

def inkPointFromJson (value : Value) : Option InkPoint := do
  let json ← value.asMap
  let x ← (json.read "x").asNum
  let y ← (json.read "y").asNum
  pure ⟨x, y⟩

def inkStrokeToJson (stroke : InkStroke) : Value :=
  mapOf [("id", .string stroke.id), ("authorId", .string stroke.authorId),
    ("pageIndex", .int stroke.pageIndex), ("colorId", .string stroke.colorId),
    ("points", .array (stroke.points.map inkPointToJson))]

def inkStrokeFromJson (value : Value) : Option InkStroke := do
  let json ← value.asMap
  let id ← (json.read "id").asString
  let authorId ← (json.read "authorId").asString
  let pageIndex ← (json.read "pageIndex").asInt
  let colorId ← (json.read "colorId").asString
  let points ← (← (json.read "points").asArray).mapM inkPointFromJson
  pure ⟨id, authorId, pageIndex, colorId, points⟩

/-- `_roleFromName`. -/
def roleFromName (name : Option String) : PieceRole :=
  ([PieceRole.owner, .collaborator].find? fun role => some role.name = name).getD .collaborator

def inkLayerToJson (layer : InkLayer) : Value :=
  mapOf [("ownerId", .string layer.ownerId), ("role", .string layer.role.name),
    ("strokes", .array (layer.strokes.map inkStrokeToJson))]

def inkLayerFromJson (value : Value) : Option InkLayer := do
  let json ← value.asMap
  let ownerId ← (json.read "ownerId").asString
  let role ← (json.read "role").orNull Value.asString
  let strokes ← (← (json.read "strokes").asArray).mapM inkStrokeFromJson
  pure ⟨ownerId, roleFromName role, strokes, none⟩

def regionToJson (region : Region) : Value :=
  mapOf [("pageIndex", .int region.pageIndex), ("left", .double region.left),
    ("top", .double region.top), ("width", .double region.width),
    ("height", .double region.height)]

def regionFromJson (value : Value) : Option Region := do
  let json ← value.asMap
  let pageIndex ← (json.read "pageIndex").asInt
  let left ← (json.read "left").asNum
  let top ← (json.read "top").asNum
  let width ← (json.read "width").asNum
  let height ← (json.read "height").asNum
  pure ⟨pageIndex, left, top, width, height⟩

variable (zone : TimeZone)

def audioNoteToJson (note : AudioNote) : Value :=
  mapOf [("id", .string note.id), ("authorId", .string note.authorId),
    ("audioAssetId", .string note.audioAssetId), ("pageIndex", .int note.pageIndex),
    ("durationMs", .int note.durationMs), ("region", regionToJson note.region),
    ("createdAt", .string (zone.toIso8601String note.createdAt)),
    ("deletedAt", .ofOption .string (note.deletedAt.map zone.toIso8601String))]

/-- What is not a string reads as a live note. -/
def deletedAtFromJson : Value → Option (Option DateTime)
  | .string text => (zone.parse text).map some
  | _ => some none

def audioNoteFromJson (value : Value) : Option AudioNote := do
  let json ← value.asMap
  let id ← (json.read "id").asString
  let authorId ← (json.read "authorId").asString
  let audioAssetId ← (json.read "audioAssetId").asString
  let pageIndex ← (json.read "pageIndex").asInt
  let durationMs ← (json.read "durationMs").asInt
  let region ← regionFromJson (json.read "region")
  let createdAt ← (json.read "createdAt").asString.bind zone.parse
  let deletedAt ← deletedAtFromJson zone (json.read "deletedAt")
  pure ⟨id, authorId, audioAssetId, pageIndex, durationMs, region, createdAt, deletedAt⟩

def pieceAnnotationsToJson (annotations : PieceAnnotations) : Value :=
  mapOf [("pieceId", .string annotations.pieceId),
    ("layers", .array (annotations.layers.map inkLayerToJson)),
    ("audioNotes", .array (annotations.audioNotes.map (audioNoteToJson zone)))]

def pieceAnnotationsFromJson (value : Value) : Option PieceAnnotations := do
  let json ← value.asMap
  let pieceId ← (json.read "pieceId").asString
  let layers ← (← (json.read "layers").asArray).mapM inkLayerFromJson
  let audioNotes ← (← (json.read "audioNotes").asArray).mapM (audioNoteFromJson zone)
  pure ⟨pieceId, layers, audioNotes⟩

/-! ## What is read back -/

variable {zone}

@[simp] theorem inkPointFromJson_toJson (point : InkPoint) :
    inkPointFromJson (inkPointToJson point) = some point := by
  simp [inkPointFromJson, inkPointToJson, mapOf, Assoc.ofList, Fields.read_set]

@[simp] theorem inkStrokeFromJson_toJson (stroke : InkStroke) :
    inkStrokeFromJson (inkStrokeToJson stroke) = some stroke := by
  have hpoints := mapM_map_eq_some inkPointFromJson_toJson stroke.points
  simp [inkStrokeFromJson, inkStrokeToJson, mapOf, Assoc.ofList, Fields.read_set, hpoints]

@[simp] theorem roleFromName_name (role : PieceRole) : roleFromName (some role.name) = role := by
  cases role <;> decide

@[simp] theorem inkLayerFromJson_toJson (layer : InkLayer) :
    inkLayerFromJson (inkLayerToJson layer) = some { layer with updatedAt := none } := by
  have hstrokes := mapM_map_eq_some inkStrokeFromJson_toJson layer.strokes
  simp [inkLayerFromJson, inkLayerToJson, mapOf, Assoc.ofList, Fields.read_set, hstrokes]

@[simp] theorem regionFromJson_toJson (region : Region) :
    regionFromJson (regionToJson region) = some region := by
  simp [regionFromJson, regionToJson, mapOf, Assoc.ofList, Fields.read_set]

/-- Only the instants of a note may change. -/
theorem audioNoteFromJson_toJson (note : AudioNote) :
    audioNoteFromJson zone (audioNoteToJson zone note) =
      (zone.parse (zone.toIso8601String note.createdAt)).bind fun createdAt =>
        (deletedAtFromJson zone (.ofOption .string (note.deletedAt.map zone.toIso8601String))).map
          fun deletedAt => { note with createdAt := createdAt, deletedAt := deletedAt } := by
  simp [audioNoteFromJson, audioNoteToJson, mapOf, Assoc.ofList, Fields.read_set,
    Option.map_eq_bind]

theorem audioNoteFromJson_toJson_iff {note : AudioNote} :
    audioNoteFromJson zone (audioNoteToJson zone note) = some note ↔ note.ReadsBack zone := by
  rw [audioNoteFromJson_toJson, AudioNote.ReadsBack]
  obtain ⟨id, authorId, audioAssetId, pageIndex, durationMs, region, createdAt, deletedAt⟩ := note
  cases deletedAt with
  | none => simp [deletedAtFromJson, Value.ofOption, Option.bind_eq_some_iff]
  | some t => simp [deletedAtFromJson, Value.ofOption, Option.bind_eq_some_iff]

/-- Annotations are read back, without the times of writing of their layers, exactly if the instants
of their notes are. -/
theorem pieceAnnotationsFromJson_toJson_iff {annotations : PieceAnnotations} :
    pieceAnnotationsFromJson zone (pieceAnnotationsToJson zone annotations) =
      some (annotations.writtenAt none) ↔ annotations.ReadsBack zone := by
  have hlayers := mapM_map_eq_some inkLayerFromJson_toJson annotations.layers
  have hnotes : (annotations.audioNotes.map (audioNoteToJson zone)).mapM (audioNoteFromJson zone) =
      some annotations.audioNotes ↔ annotations.ReadsBack zone :=
    mapM_map_eq_self_iff.trans (forall₂_congr fun _ _ => audioNoteFromJson_toJson_iff)
  rw [← hnotes]
  simp [pieceAnnotationsFromJson, pieceAnnotationsToJson, mapOf, Assoc.ofList, Fields.read_set,
    hlayers, PieceAnnotations.writtenAt, Option.bind_eq_some_iff]

end AnnotationRecords

/-! ## Chains of stores -/

open AnnotationRecords

/-- Where annotations are written to and read back from. -/
inductive Store where
  | local
  | firestore (rev : Int) (updatedAt : DateTime)
  deriving DecidableEq

namespace Store

variable (zone : TimeZone)

/-- Annotations are written and read back: as one JSON value, or as a document for each layer, under
the uid of its owner, and for each note, under its id. -/
def roundTrip (annotations : PieceAnnotations) : Store → Option PieceAnnotations
  | .local => pieceAnnotationsFromJson zone (pieceAnnotationsToJson zone annotations)
  | .firestore rev updatedAt => do
    let layers ← annotations.layers.mapM fun layer =>
      layerFromFirestore layer.ownerId (layerToFirestore layer rev updatedAt)
    let audioNotes ← annotations.audioNotes.mapM fun note =>
      audioNoteFromFirestore note.id (audioNoteToFirestore note)
    pure ⟨annotations.pieceId, layers, audioNotes⟩

/-- The time of writing that layers are read back with. -/
def stamp : Store → Option DateTime
  | .local => none
  | .firestore _ updatedAt => some updatedAt

/-- What a chain of stores should make of annotations. -/
def throughChain (annotations : PieceAnnotations) (chain : List Store) : PieceAnnotations :=
  match chain.getLast? with
  | none => annotations
  | some last => annotations.writtenAt last.stamp

variable {zone} {annotations : PieceAnnotations}

theorem roundTrip_firestore (annotations : PieceAnnotations) (rev : Int) (updatedAt : DateTime) :
    roundTrip zone annotations (.firestore rev updatedAt) =
      some (annotations.writtenAt (some updatedAt)) := by
  have hlayers : annotations.layers.mapM (fun layer =>
      layerFromFirestore layer.ownerId (layerToFirestore layer rev updatedAt)) =
        some (annotations.layers.map fun layer => { layer with updatedAt := some updatedAt }) :=
    mapM_eq_some_map fun layer _ => layerFromFirestore_layerToFirestore _ _ _ _
  have hnotes : annotations.audioNotes.mapM (fun note =>
      audioNoteFromFirestore note.id (audioNoteToFirestore note)) =
        some (annotations.audioNotes.map id) :=
    mapM_eq_some_map fun note _ => audioNoteFromFirestore_audioNoteToFirestore _ _
  simp only [roundTrip, hlayers, hnotes, Option.bind_eq_bind, Option.bind_some, List.map_id]
  rfl

/-- A store gives back what it is given but for the times of writing. -/
theorem roundTrip_eq (h : annotations.ReadsBack zone) (store : Store) :
    roundTrip zone annotations store = some (annotations.writtenAt store.stamp) := by
  cases store with
  | «local» => exact pieceAnnotationsFromJson_toJson_iff.mpr h
  | firestore rev updatedAt => exact roundTrip_firestore annotations rev updatedAt

@[simp] theorem writtenAt_writtenAt (updatedAt updatedAt' : Option DateTime) :
    (annotations.writtenAt updatedAt).writtenAt updatedAt' = annotations.writtenAt updatedAt' := by
  simp [PieceAnnotations.writtenAt, Function.comp_def]

/-- Any chain of stores gives back what it is given, with the time of the last writing. -/
theorem foldlM_roundTrip (h : annotations.ReadsBack zone) (chain : List Store) :
    chain.foldlM (roundTrip zone) annotations = some (throughChain annotations chain) := by
  induction chain generalizing annotations with
  | nil => rfl
  | cons store rest ih =>
    have hwritten : (annotations.writtenAt store.stamp).ReadsBack zone := h
    rw [List.foldlM_cons, roundTrip_eq h, Option.bind_eq_bind, Option.bind_some, ih hwritten]
    cases rest with
    | nil => rfl
    | cons next rest => simp [throughChain, List.getLast?_cons]

/-- Either codec gives back what it is given, but for the times of writing of the layers, and so does
any chain of the two, exactly if the instants of the notes are read back from their texts. -/
theorem codecs_iff (zone : TimeZone) (annotations : PieceAnnotations) :
    (pieceAnnotationsFromJson zone (pieceAnnotationsToJson zone annotations) =
        some (annotations.writtenAt none) ∧
      (∀ layer ∈ annotations.layers, ∀ rev updatedAt,
        layerFromFirestore layer.ownerId (layerToFirestore layer rev updatedAt) =
          some { layer with updatedAt := some updatedAt }) ∧
      (∀ note ∈ annotations.audioNotes,
        audioNoteFromFirestore note.id (audioNoteToFirestore note) = some note) ∧
      ∀ chain : List Store,
        chain.foldlM (roundTrip zone) annotations = some (throughChain annotations chain)) ↔
      annotations.ReadsBack zone := by
  refine ⟨fun h => pieceAnnotationsFromJson_toJson_iff.mp h.1, fun h => ⟨?_, ?_, ?_, ?_⟩⟩
  · exact pieceAnnotationsFromJson_toJson_iff.mpr h
  · exact fun layer _ rev updatedAt => layerFromFirestore_layerToFirestore _ _ _ _
  · exact fun note _ => audioNoteFromFirestore_audioNoteToFirestore _ _
  · exact foldlM_roundTrip h

/-! ### A clock that is set back -/

/-- Where clocks are set back from four hours behind universal time to five, at two o'clock in the
morning of the third of November 2024. -/
def setBack : TimeZone where
  timeZoneOffsetInSeconds micros := if micros < 1730613600000000 then -14400 else -18000
  localTimeZoneAdjustmentInSeconds := -18000
  lt_day micros := by split_ifs <;> decide

/-- Half past one in that night, for the first time. -/
def firstPass : DateTime := ⟨1730611800000000, by decide⟩

/-- A recording that is pinned at such an instant. -/
def pinnedAt (createdAt : DateTime) : PieceAnnotations :=
  ⟨"p", [], [⟨"n", "ann", "asset", 0, 1000, ⟨0, 0, 0, 1, 1⟩, createdAt, none⟩]⟩

/-- The JSON gives back the second half past one. -/
theorem not_codecs :
    ¬∀ (zone : TimeZone) (annotations : PieceAnnotations),
      pieceAnnotationsFromJson zone (pieceAnnotationsToJson zone annotations) =
        some (annotations.writtenAt none) := by
  intro h
  exact absurd (h setBack (pinnedAt firstPass)) (by decide +kernel)

end Store

end Duet
