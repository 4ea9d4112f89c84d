import Duet.Device.AnnotationRepository
import Duet.Device.AudioAssetStore
import Duet.Device.PieceRepository
import Duet.ReviewSync.Manifest

/-!
# `FileShareReviewSyncService`

A `.duet` bundle is a zip archive with a `manifest.json`, the author's recordings under `audio/`
and, on the first export from a device, the base PDF under `pdf/`. A bundle file is an
`Option Archive`: `none` stands for bytes that are not a zip archive.

## Main definitions

* `exportBundle` — pack one author's slice of a piece.
* `importBundle` — apply a bundle: open it, resolve its piece, drop it when it is stale, else
  restore its recordings, replace the author's slice and advance the mark.
-/

namespace Duet

open Lib Effect

structure ArchiveFile where
  name : String
  content : Content
  deriving DecidableEq, Repr

abbrev Archive := List ArchiveFile

namespace Archive

/-- A file of the same name is replaced in its place. -/
def addFile : Archive → ArchiveFile → Archive
  | [], file => [file]
  | f :: rest, file => if f.name = file.name then file :: rest else f :: addFile rest file

/-- The content of the first file of that name. -/
def content? (archive : Archive) (name : String) : Option Content :=
  (archive.find? fun f => f.name == name).map (·.content)

end Archive

structure ReviewBundleSummary where
  pieceTitle : String
  strokeCount : Nat
  audioNoteCount : Nat
  exportedAt : DateTime
  deriving DecidableEq, Repr

/-- An exported bundle, with the archive written to `filePath`. -/
structure ExportedBundle where
  pieceId : String
  filePath : String
  summary : ReviewBundleSummary
  archive : Archive
  deriving DecidableEq, Repr

/-- `_lastAppliedKey`, under the prefix `review_sync.last_applied.`. -/
def lastAppliedKey (pieceId authorId : String) : String := s!"{pieceId}.{authorId}"

/-- The last applied revision of an author's slice of a piece, 0 when there is none. -/
def Device.lastAppliedAt (d : Device) (pieceId authorId : String) : Int :=
  (d.storage.lastApplied.get (lastAppliedKey pieceId authorId)).getD 0

/-- `_roleOf`. -/
def roleOf (piece : Piece) (authorId : String) : PieceRole :=
  if piece.ownerId = authorId then .owner else .collaborator

/-- Write a file of the scratch directory. -/
def writeFile (env : Env) (step : Step) (path : String) (content : Content) : Action Unit := do
  env.await step
  modify fun d => { d with files := d.files.set path content }

/-- `if (file.existsSync()) await file.delete()`. -/
def deleteIfPresent (env : Env) (step : Step) (path : String) : Action Unit := do
  let d ← get
  if (d.files.get path).isSome then do
    env.await step
    modify fun d => { d with files := d.files.erase path }
  else pure ()

/-! ## Export -/

/-- The author's layer, an empty one when there is none. -/
def exportedLayer (annotations : PieceAnnotations) (piece : Piece) (authorId : String) :
    InkLayer :=
  (annotations.layers.find? fun l => l.ownerId == authorId).getD
    ⟨authorId, roleOf piece authorId, [], none⟩

/-- The loop over the author's notes: the recordings go into the archive, a tombstone carries
none. -/
def packAudio (env : Env) : Nat → List AudioNote → Archive →
    Action (List ManifestAudioEntry × Archive)
  | _, [], archive => pure ([], archive)
  | i, note :: rest, archive =>
    if note.isTombstoned then do
      let (entries, packed) ← packAudio env (i + 1) rest archive
      pure (⟨note, none⟩ :: entries, packed)
    else do
      let path ← (audioFileFor note.audioAssetId).attempt
      match path with
      | .error error => fail (.reviewSyncCaused s!"Missing audio asset for note {note.id}: " error)
      | .ok asset => do
        let fileName := note.id ++ asset.extension
        env.await (.readAudio i)
        let (entries, packed) ← packAudio env (i + 1) rest
          (archive.addFile ⟨"audio/" ++ fileName, asset.content⟩)
        pure (⟨note, some fileName⟩ :: entries, packed)

/-- The first export from this device carries the base PDF, when its file is there. -/
def packBasePdf (env : Env) (pieceId : String) (piece : Piece) (archive : Archive) :
    Action (Option String × Archive) := do
  let d ← get
  match d.files.get piece.basePdfPath with
  | some content =>
    if d.storage.baseShared.get pieceId ≠ some true then do
      let pdfFilename := Path.basename piece.basePdfPath
      env.await .readPdf
      pure (some pdfFilename, archive.addFile ⟨"pdf/" ++ pdfFilename, content⟩)
    else pure (none, archive)
  | none => pure (none, archive)

/-- `_storage.setBool(baseSharedKey, true)`, once a bundle with the base PDF is written. -/
def setBaseShared (env : Env) (pieceId : String) : Option String → Action Unit
  | none => pure ()
  | some _ => do
    env.await .markShared
    modify fun d => { d with storage := { d.storage with
      baseShared := d.storage.baseShared.set pieceId true } }

def exportBundle (env : Env) (pieceId : String) (authorId : Option String) :
    Action ExportedBundle := do
  let resolvedAuthorId := authorId.getD env.currentUserId
  let d ← get
  match d.getPiece pieceId with
  | .error error => fail (.reviewSyncCaused s!"Unknown piece: {pieceId} " error)
  | .ok piece => do
    let annotations ← loadAnnotations pieceId
    let layer := exportedLayer annotations piece resolvedAuthorId
    let authorNotes := annotations.notesBy resolvedAuthorId
    let (audioEntries, withAudio) ← packAudio env 0 authorNotes []
    let (pdfFilename, withPdf) ← packBasePdf env pieceId piece withAudio
    let now := env.clock .exportManifest
    let authorName :=
      if resolvedAuthorId = env.currentUserId then env.currentUserName else none
    let manifest : ReviewManifest := ⟨1, pieceId, piece.title, resolvedAuthorId, authorName,
      now.millisecondsSinceEpoch, piece.basePdfChecksum, pdfFilename, layer.strokes, audioEntries⟩
    let archive := withPdf.addFile ⟨"manifest.json", .json manifest.toJson⟩
    env.await .bundlesDirectory
    env.await .writeBundle
    setBaseShared env pieceId pdfFilename
    let fileName := s!"duet_{pieceId}_{resolvedAuthorId}_{now.millisecondsSinceEpoch}.duet"
    pure ⟨pieceId, Path.join env.bundlesDirectory fileName,
      ⟨piece.title, layer.strokes.length,
        (authorNotes.filter fun n => !n.isTombstoned).length, now⟩, archive⟩

/-! ## Import -/

/-- The archive of a bundle and its manifest. -/
def openBundle (env : Env) (bundle : Option Archive) : Action (Archive × ReviewManifest) := do
  env.await .readBundle
  let archive ← orFail bundle (.reviewSyncCaused "Not a valid .duet bundle: " .invalidArchive)
  let content ← orFail (archive.content? "manifest.json")
    (.reviewSync "Bundle is missing manifest.json")
  let manifest ← orFail (content.decodeJson.bind ReviewManifest.fromJson) .typeError
  pure (archive, manifest)

section

variable (sha256 : Content → String) (env : Env)

/-- A piece that has been registered is checked against the manifest's checksum. -/
def verifyImportedPdf (manifest : ReviewManifest) (piece : Piece) : Action Piece :=
  if piece.basePdfChecksum ≠ manifest.basePdfChecksum then
    fail (.reviewSync (s!"Imported PDF checksum for {manifest.pieceId} does not match the " ++
      "manifest's basePdfChecksum — the transferred file may be corrupt"))
  else pure piece

/-- The second half of `_importPieceFromBundle`: register the PDF at `tempPath`. The author of the
bundle becomes the owner. -/
def registerTempFile (manifest : ReviewManifest) (tempPath : String) : Action Piece := do
  let isSelfImport := env.currentUserId = manifest.authorId
  let piece ← (registerImportedPiece sha256 env manifest.pieceId manifest.pieceTitle
      manifest.authorId tempPath (if isSelfImport then none else some env.currentUserId)
      manifest.authorName (if isSelfImport then none else env.currentUserName)).andFinally
    (deleteIfPresent env .removePdf tempPath)
  verifyImportedPdf manifest piece

/-- Where `_importPieceFromBundle` puts the embedded PDF before it is registered. -/
def tempPdfPath (manifest : ReviewManifest) (pdfFilename : String) : String :=
  Path.join env.bundlesDirectory s!"import_{manifest.pieceId}{Path.extension pdfFilename}"

/-- `_importPieceFromBundle`: create the piece from the bundle's embedded PDF. -/
def importPieceFromBundle (manifest : ReviewManifest) (archive : Archive) : Action Piece := do
  let pdfFilename ← orFail manifest.basePdfFilename (.reviewSync
    (s!"Unknown piece: {manifest.pieceId} (no local copy, and this " ++
      "bundle has no embedded PDF to create one from)"))
  let content ← orFail (archive.content? ("pdf/" ++ pdfFilename)) (.reviewSync
    (s!"Bundle is missing the embedded PDF (pdf/{pdfFilename}) needed to " ++
      s!"create {manifest.pieceId} locally"))
  env.await .bundlesDirectory
  writeFile env .writePdf (tempPdfPath env manifest pdfFilename) content
  registerTempFile sha256 env manifest (tempPdfPath env manifest pdfFilename)

/-- `_resolvePiece`: the local piece, unless its PDF has drifted from the sender's; else a new one
from the bundle. -/
def resolvePiece (manifest : ReviewManifest) (archive : Archive) : Action Piece := do
  let d ← get
  match d.getPiece manifest.pieceId with
  | .ok piece =>
    if piece.basePdfChecksum ≠ manifest.basePdfChecksum then
      fail (.reviewSync (s!"Base PDF checksum mismatch for {manifest.pieceId}: the local " ++
        "copy has drifted from the sender's. Refusing to apply " ++
        "region-anchored annotations that could silently misalign."))
    else pure piece
  | .error _ => importPieceFromBundle sha256 env manifest archive

/-- Where the loop puts a recording before it is stored. -/
def tempAudioPath (entry : ManifestAudioEntry) (audioFile : String) : String :=
  Path.join env.bundlesDirectory s!"import_{entry.note.id}{Path.extension audioFile}"

/-- The audio file of one entry, stored under an id of this device; an entry without one is
carried through. -/
def restoreNote (archive : Archive) (i : Nat) (entry : ManifestAudioEntry) : Action AudioNote :=
  match entry.audioFile with
  | none => pure entry.note
  | some audioFile => do
    let content ← orFail (archive.content? ("audio/" ++ audioFile))
      (.reviewSync s!"Missing audio file for note {entry.note.id}")
    let tempPath := tempAudioPath env entry audioFile
    writeFile env (.writeAudio i) tempPath content
    let putResult ← (putAudio env i tempPath).attempt
    deleteIfPresent env (.removeAudio i) tempPath
    match putResult with
    | .error error =>
      fail (.reviewSyncCaused s!"Failed to store imported audio for note {entry.note.id}: " error)
    | .ok assetId => pure (entry.note.withAsset assetId)

/-- The loop over the entries of the manifest. -/
def restoreAudio (archive : Archive) : Nat → List ManifestAudioEntry → Action (List AudioNote)
  | _, [] => pure []
  | i, entry :: rest => do
    let note ← restoreNote env archive i entry
    let notes ← restoreAudio archive (i + 1) rest
    pure (note :: notes)

/-- The loop over the stale assets; what a delete returns is not looked at. -/
def deleteStaleAssets : List String → Action Unit
  | [] => pure ()
  | assetId :: rest => do
    let _ ← (deleteAudio env assetId).attempt
    deleteStaleAssets rest

/-- `_storage.setInt(lastAppliedKey, …)`. -/
def setLastApplied (pieceId authorId : String) (millis : Int) : Action Unit := do
  env.await .markApplied
  modify fun d => { d with storage := { d.storage with
    lastApplied := d.storage.lastApplied.set (lastAppliedKey pieceId authorId) millis } }

/-- The end of `importBundle`: the notifier is called when something changed. -/
def reportImport (manifest : ReviewManifest) (piece : Piece) (liveImported : List AudioNote) :
    Action ReviewBundleSummary := do
  if manifest.strokes ≠ [] ∨ liveImported ≠ [] then env.await .notify else pure ()
  let exportedAt ← orFail (DateTime.fromMillisecondsSinceEpoch manifest.exportedAtMillis)
    .typeError
  pure ⟨piece.title, manifest.strokes.length, liveImported.length, exportedAt⟩

/-- The rest of `importBundle` once the recordings are restored. -/
def finishImport (manifest : ReviewManifest) (piece : Piece) (newAudioNotes : List AudioNote) :
    Action ReviewBundleSummary := do
  let liveImported := newAudioNotes.filter fun n => !n.isTombstoned
  let current ← watchFirst manifest.pieceId
  let staleAssetIds := ((current.notesBy manifest.authorId).map (·.audioAssetId)).eraseDups
  replaceAuthorSlice env manifest.pieceId manifest.authorId (roleOf piece manifest.authorId)
    manifest.strokes newAudioNotes
  deleteStaleAssets env staleAssetIds
  setLastApplied env manifest.pieceId manifest.authorId manifest.exportedAtMillis
  reportImport env manifest piece liveImported

/-- What `importBundle` does with a bundle that is not stale. -/
def applyManifest (archive : Archive) (manifest : ReviewManifest) (piece : Piece) :
    Action ReviewBundleSummary := do
  env.await .audioDirectory
  let newAudioNotes ← restoreAudio env archive 0 manifest.audioEntries
  finishImport env manifest piece newAudioNotes

/-- A bundle that is not newer than the last applied one is dropped. -/
def applyUnlessStale (archive : Archive) (manifest : ReviewManifest) (piece : Piece) :
    Action ReviewBundleSummary := do
  let d ← get
  if manifest.exportedAtMillis ≤ d.lastAppliedAt manifest.pieceId manifest.authorId then do
    let exportedAt ← orFail (DateTime.fromMillisecondsSinceEpoch manifest.exportedAtMillis)
      .typeError
    pure ⟨piece.title, 0, 0, exportedAt⟩
  else applyManifest env archive manifest piece

def importBundle (bundle : Option Archive) : Action ReviewBundleSummary := do
  let (archive, manifest) ← openBundle env bundle
  let piece ← resolvePiece sha256 env manifest archive
  applyUnlessStale env archive manifest piece

end

end Duet
