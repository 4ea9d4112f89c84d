import Duet.Domain.Annotation
import Duet.Lib.Value

/-!
# The manifest of a review bundle

`ReviewManifest` and its JSON, `manifest.json`: one author's strokes and notes on one piece. A
note travels without its asset id and with its times in milliseconds.

`fromJson_toJson` is the round trip up to that.
-/

namespace Duet

open Lib

/-- One note of a bundle: its metadata and the name of its file under `audio/`. -/
structure ManifestAudioEntry where
  note : AudioNote
  audioFile : Option String
  deriving DecidableEq, Repr

/-- The parsed contents of a bundle's `manifest.json`. -/
structure ReviewManifest where
  version : Int
  pieceId : String
  pieceTitle : String
  authorId : String
  authorName : Option String
  exportedAtMillis : Int
  basePdfChecksum : String
  basePdfFilename : Option String
  strokes : List InkStroke
  audioEntries : List ManifestAudioEntry
  deriving DecidableEq, Repr

/-! ## Encoding -/

def pointToJson (point : InkPoint) : Value :=
  .map [("x", .double point.x), ("y", .double point.y)]

def strokeToJson (stroke : InkStroke) : Value :=
  .map [("id", .string stroke.id), ("authorId", .string stroke.authorId),
    ("pageIndex", .int stroke.pageIndex), ("colorId", .string stroke.colorId),
    ("points", .array (stroke.points.map pointToJson))]

def regionToJson (region : Region) : Value :=
  .map [("pageIndex", .int region.pageIndex), ("left", .double region.left),
    ("top", .double region.top), ("width", .double region.width),
    ("height", .double region.height)]

def audioEntryToJson (entry : ManifestAudioEntry) : Value :=
  .map [("id", .string entry.note.id), ("authorId", .string entry.note.authorId),
    ("pageIndex", .int entry.note.pageIndex), ("durationMs", .int entry.note.durationMs),
    ("region", regionToJson entry.note.region),
    ("createdAtMillis", .int entry.note.createdAt.millisecondsSinceEpoch),
    ("deletedAtMillis", .ofOption .int
      (entry.note.deletedAt.map (·.millisecondsSinceEpoch))),
    ("audioFile", .ofOption .string entry.audioFile)]

def ReviewManifest.toJson (manifest : ReviewManifest) : Value :=
  .map [("version", .int manifest.version), ("pieceId", .string manifest.pieceId),
    ("pieceTitle", .string manifest.pieceTitle), ("authorId", .string manifest.authorId),
    ("authorName", .ofOption .string manifest.authorName),
    ("exportedAtMillis", .int manifest.exportedAtMillis),
    ("basePdf", .map [("checksum", .string manifest.basePdfChecksum),
      ("filename", .ofOption .string manifest.basePdfFilename)]),
    ("strokes", .array (manifest.strokes.map strokeToJson)),
    ("audioNotes", .array (manifest.audioEntries.map audioEntryToJson))]

/-! ## Decoding -/

def pointFromJson (json : Value) : Option InkPoint := do
  let fields ← json.asMap
  let x ← (fields.read "x").asNum
  let y ← (fields.read "y").asNum
  pure ⟨x, y⟩

def strokeFromJson (json : Value) : Option InkStroke := do
  let fields ← json.asMap
  let id ← (fields.read "id").asString
  let authorId ← (fields.read "authorId").asString
  let pageIndex ← (fields.read "pageIndex").asInt
  let colorId ← (fields.read "colorId").asString
  let points ← (← (fields.read "points").asArray).mapM pointFromJson
  pure ⟨id, authorId, pageIndex, colorId, points⟩

def regionFromJson (json : Value) : Option Region := do
  let fields ← json.asMap
  let pageIndex ← (fields.read "pageIndex").asInt
  let left ← (fields.read "left").asNum
  let top ← (fields.read "top").asNum
  let width ← (fields.read "width").asNum
  let height ← (fields.read "height").asNum
  pure ⟨pageIndex, left, top, width, height⟩

/-- The instant of an optional count of milliseconds. -/
def instantFromMillis : Option Int → Option (Option DateTime)
  | none => some none
  | some millis => (DateTime.fromMillisecondsSinceEpoch millis).map some

/-- The asset id is left blank. -/
def audioEntryFromJson (json : Value) : Option ManifestAudioEntry := do
  let fields ← json.asMap
  let deletedAtMillis ← (fields.read "deletedAtMillis").orNull Value.asInt
  let id ← (fields.read "id").asString
  let authorId ← (fields.read "authorId").asString
  let pageIndex ← (fields.read "pageIndex").asInt
  let durationMs ← (fields.read "durationMs").asInt
  let region ← regionFromJson (fields.read "region")
  let createdAt ← DateTime.fromMillisecondsSinceEpoch (← (fields.read "createdAtMillis").asInt)
  let deletedAt ← instantFromMillis deletedAtMillis
  let audioFile ← (fields.read "audioFile").orNull Value.asString
  pure ⟨⟨id, authorId, "", pageIndex, durationMs, region, createdAt, deletedAt⟩, audioFile⟩

/-- A field of `basePdf`, `null` when the manifest has no `basePdf`. -/
def basePdfField (basePdf : Option Fields) (key : String) : Value :=
  match basePdf with
  | none => .null
  | some fields => fields.read key

/-- `ReviewManifest.fromJson`; `none` when a field does not have its type. -/
def ReviewManifest.fromJson (json : Value) : Option ReviewManifest := do
  let fields ← json.asMap
  let basePdf ← (fields.read "basePdf").orNull Value.asMap
  let version ← (fields.read "version").asInt
  let pieceId ← (fields.read "pieceId").asString
  let pieceTitle ← (fields.read "pieceTitle").asString
  let authorId ← (fields.read "authorId").asString
  let authorName ← (fields.read "authorName").orNull Value.asString
  let exportedAtMillis ← (fields.read "exportedAtMillis").asInt
  let checksum ← (basePdfField basePdf "checksum").orNull Value.asString
  let filename ← (basePdfField basePdf "filename").orNull Value.asString
  let strokes ← (← (fields.read "strokes").asArray).mapM strokeFromJson
  let audioEntries ← (← (fields.read "audioNotes").asArray).mapM audioEntryFromJson
  pure ⟨version, pieceId, pieceTitle, authorId, authorName, exportedAtMillis, checksum.getD "",
    filename, strokes, audioEntries⟩

/-! ## Round trip -/

/-- A note as it arrives: no asset id, times in milliseconds. -/
def AudioNote.transported (note : AudioNote) : AudioNote :=
  { note with
    audioAssetId := ""
    createdAt := note.createdAt.toMillisecondPrecision
    deletedAt := note.deletedAt.map DateTime.toMillisecondPrecision }

def ManifestAudioEntry.transported (entry : ManifestAudioEntry) : ManifestAudioEntry :=
  { entry with note := entry.note.transported }

def ReviewManifest.transported (manifest : ReviewManifest) : ReviewManifest :=
  { manifest with audioEntries := manifest.audioEntries.map (·.transported) }

@[simp] theorem AudioNote.authorId_transported (note : AudioNote) :
    note.transported.authorId = note.authorId := rfl
@[simp] theorem AudioNote.isTombstoned_transported (note : AudioNote) :
    note.transported.isTombstoned = note.isTombstoned := by
  simp [AudioNote.transported, AudioNote.isTombstoned]

@[simp] theorem pointFromJson_pointToJson (point : InkPoint) :
    pointFromJson (pointToJson point) = some point := by
  simp [pointFromJson, pointToJson, Fields.read, Assoc.get_cons]

@[simp] theorem strokeFromJson_strokeToJson (stroke : InkStroke) :
    strokeFromJson (strokeToJson stroke) = some stroke := by
  have hpoints := mapM_map_eq_some pointFromJson_pointToJson stroke.points
  simp [strokeFromJson, strokeToJson, Fields.read, Assoc.get_cons, hpoints]

@[simp] theorem regionFromJson_regionToJson (region : Region) :
    regionFromJson (regionToJson region) = some region := by
  simp [regionFromJson, regionToJson, Fields.read, Assoc.get_cons]

theorem instantFromMillis_map (t : Option DateTime) :
    instantFromMillis (t.map (·.millisecondsSinceEpoch)) =
      some (t.map DateTime.toMillisecondPrecision) := by
  cases t <;> simp [instantFromMillis]

@[simp] theorem audioEntryFromJson_audioEntryToJson (entry : ManifestAudioEntry) :
    audioEntryFromJson (audioEntryToJson entry) = some entry.transported := by
  simp [audioEntryFromJson, audioEntryToJson, Fields.read, Assoc.get_cons,
    instantFromMillis_map, ManifestAudioEntry.transported, AudioNote.transported]

/-- A manifest that is written and read back is the same up to the notes' asset ids and the
precision of their times. -/
theorem ReviewManifest.fromJson_toJson (manifest : ReviewManifest) :
    fromJson manifest.toJson = some manifest.transported := by
  have hstrokes := mapM_map_eq_some strokeFromJson_strokeToJson manifest.strokes
  have hentries := mapM_map_eq_some audioEntryFromJson_audioEntryToJson manifest.audioEntries
  rw [List.map_id'] at hstrokes
  -- the fields before `authorName` are read by computing
  refine Option.bind_eq_some_iff.mpr ⟨_, Value.orNull_asString_ofOption manifest.authorName, ?_⟩
  refine Option.bind_eq_some_iff.mpr ⟨manifest.exportedAtMillis, rfl, ?_⟩
  refine Option.bind_eq_some_iff.mpr ⟨some manifest.basePdfChecksum, rfl, ?_⟩
  refine Option.bind_eq_some_iff.mpr
    ⟨_, Value.orNull_asString_ofOption manifest.basePdfFilename, ?_⟩
  refine Option.bind_eq_some_iff.mpr ⟨_, rfl, Option.bind_eq_some_iff.mpr ⟨_, hstrokes, ?_⟩⟩
  exact Option.bind_eq_some_iff.mpr ⟨_, rfl, Option.bind_eq_some_iff.mpr ⟨_, hentries, rfl⟩⟩

end Duet
