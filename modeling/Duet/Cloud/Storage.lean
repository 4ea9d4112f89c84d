import Duet.Cloud.Backend
import Duet.Lib.Extended
import Mathlib.Logic.Function.Basic

/-!
# Recordings in the storage

The recording of a note is an object `pieces/{pieceId}/audio/{assetId}` of the storage. Clients
upload it under `storage.rules`, and `deleteAccount` and `gcTombstones` delete the objects of the
notes that they remove, best-effort.

The arguments that stand beside a request are the notes whose objects the function reaches in the
storage, and `asText`, what a JavaScript template makes of a value.

## Main definitions

* `audioRule` — the rule for recordings in `storage.rules`.
* `Recordings` — the documents, the objects, and what everybody uploaded last.
* `Storage.sweepTombstonesBefore`, `Storage.deleteAccount` — the functions with what they do to the
  storage.

## Main results

* `forget_sweepTombstonesBefore`, `forget_deleteAccount` — on the documents they do what the programs
  without the storage do.
-/

namespace Duet

open Lib Program Verdict

/-- The content of an object. -/
abbrev Bytes := List UInt8

/-! ## `storage.rules` -/

/-- The size from which on a recording is refused. -/
def maxRecordingSize : Nat := 5 * 1024 * 1024

/-- `match /pieces/{pieceId}/audio/{assetId}`, for a write that leaves `resource`: a delete leaves
nothing, of which the size cannot be read. -/
def audioRule (auth : Auth) (piece : Option Fields) (resource : Option Bytes) : Verdict :=
  ((signedIn auth).and (isIn auth.uid (dataField piece "participantIds"))).and
    (resource.map fun bytes => decide (bytes.length < maxRecordingSize))

/-! ## The storage -/

/-- The object `pieces/{pieceId}/audio/{assetId}`. -/
structure AudioObject where
  pieceId : String
  assetId : String
  deriving DecidableEq, Repr

/-- The documents, the recordings, and what every participant uploaded last. -/
structure Recordings where
  cloud : Cloud
  objects : AudioObject → Option Bytes
  uploads : String → AudioObject → Option Bytes

/-- A batch of writes to documents, or a write to one recording. -/
inductive RecordingWrite where
  | documents (batch : ClientCommit)
  | object (uid : String) (path : AudioObject) (resource : Option Bytes)
  deriving DecidableEq, Repr

namespace Recordings

/-- A recording is written or deleted. -/
def store (s : Recordings) (path : AudioObject) (resource : Option Bytes) : Recordings :=
  { s with objects := Function.update s.objects path resource }

/-- A participant uploads a recording, or deletes it. -/
def write (s : Recordings) (uid : String) (path : AudioObject) (resource : Option Bytes) :
    Recordings :=
  { s.store path resource with
    uploads := match resource with
      | none => s.uploads
      | some bytes => Function.update s.uploads uid
          (Function.update (s.uploads uid) path (some bytes)) }

/-- What the rules let a client write. -/
def commits (s : Recordings) : RecordingWrite → Option Recordings
  | .documents batch => (Backend.commits s.cloud batch).map fun cloud => { s with cloud := cloud }
  | .object uid path resource =>
    if (audioRule (some uid) (s.cloud.doc (.pieces path.pieceId)) resource).Holds then
      some (s.write uid path resource)
    else none

end Recordings

/-! ## The functions -/

/-- What a function does to the documents, and the recordings that it deletes. -/
abbrev RecordingOperation := Extended Operation AudioObject

abbrev RecordingProgram :=
  Program RecordingOperation (Extended.Response Operation.Response) CloudFailure

def RecordingOperation.perform :
    Interpreter RecordingOperation (Extended.Response Operation.Response) CloudFailure Recordings
  | .base op, s => ((Operation.perform op s.cloud).1,
      { s with cloud := (Operation.perform op s.cloud).2 })
  -- a recording that is missing is ignored
  | .side path, s => (.ok (), s.store path none)

/-- A program on the documents. -/
abbrev onDocuments {α : Type} (p : AdminProgram α) : RecordingProgram α := p.embed

/-- A value that is true in a condition. -/
def isTruthy : Value → Bool
  | .null => false
  | .bool b => b
  | .int n => n ≠ 0
  | .double x => x ≠ 0
  | .string s => s ≠ ""
  | _ => true

namespace Storage

variable (asText : Value → String) (reached : DocPath → Bool)

/-- Deletes the recording of a note, where the note has one and its object is reached. -/
def deleteRecording (path : DocPath) (assetId : Option String) : RecordingProgram Unit :=
  match path, assetId with
  | .notes pieceId _, some assetId =>
    if reached path then call (.side ⟨pieceId, assetId⟩) done else done ()
  | _, _ => done ()

/-- The asset that the sweep takes for the recording of a note. -/
def sweptAsset (note : Fields) : Option String :=
  if isTruthy (note.read "audioAssetId") then some (asText (note.read "audioAssetId")) else none

def sweepNotes : List (DocPath × Fields) → RecordingProgram Nat
  | [] => done 0
  | note :: rest =>
    match note.2.read "deletedAt" with
    | .timestamp _ => do
      deleteRecording reached note.1 (sweptAsset asText note.2)
      onDocuments (commit [.delete note.1])
      let deleted ← sweepNotes rest
      done (deleted + 1)
    | _ => sweepNotes rest

def sweepTombstonesBefore (cutoff : Int) : RecordingProgram Nat := do
  let snapshot ← onDocuments (listDocs (.deletedUntil cutoff))
  sweepNotes asText reached snapshot

/-- The recordings of the caller's notes, one after another. -/
def deleteRecordings : List (DocPath × Fields) → RecordingProgram Unit
  | [] => done ()
  | note :: rest => do
    deleteRecording reached note.1 (note.2.read "audioAssetId").asString
    deleteRecordings rest

/-- The pieces the caller only takes part in: their recordings and their slice are deleted, then
they are dropped. -/
def leavePieces (uid : String) (schedule : Schedule) :
    List (DocPath × Fields) → RecordingProgram Unit
  | [] => done ()
  | piece :: rest => do
    let notes ← onDocuments (listDocs (.notesBy (pieceIdOf piece.1) uid))
    deleteRecordings reached notes
    onDocuments (commitEach (schedule.order
      (.delete (.layers (pieceIdOf piece.1) uid) :: notes.map fun note => .delete note.1)))
    onDocuments (transaction (dropFromPiece uid (pieceIdOf piece.1)))
    leavePieces uid schedule rest

/-- The second half of `deleteAccount`: the caller's pieces. -/
def purgePieces (uid : String) (schedule : Schedule) (myPieces : List (DocPath × Fields)) :
    RecordingProgram Unit := do
  onDocuments (commitEach (schedule.order
    ((myPieces.filter fun piece => piece.2.read "ownerId" = .string uid).map fun piece =>
      .delete piece.1)))
  leavePieces reached uid schedule
    (myPieces.filter fun piece => piece.2.read "ownerId" ≠ .string uid)

def deleteAccount (auth : Option Token) (recent : Bool) (schedule : Schedule) :
    RecordingProgram Reply := do
  let token ← orFail auth
    (.httpsError "unauthenticated" "Account deletion requires a signed-in caller.")
  if !recent then
    fail (.httpsError "failed-precondition"
      "Account deletion requires a recent sign-in. Re-authenticate and try again.")
  else do
    let directory ← onDocuments (listDocs (.directoryOf token.uid))
    let deviceToken ← onDocuments (getDoc (.deviceTokens token.uid))
    onDocuments (commitEach (schedule.order
      (directory.map (fun entry => .delete entry.1) ++ [.delete (.deviceTokens token.uid)])))
    let counted ← onDocuments (listDocs (.inboxOf token.uid))
    let inbox ← onDocuments (listDocs (.inboxOf token.uid))
    onDocuments (commitEach (schedule.order (inbox.map fun message => .delete message.1)))
    let myPieces ← onDocuments (listDocs (.piecesOf token.uid))
    purgePieces reached token.uid schedule myPieces
    done (.deleted directory.length (if deviceToken.isSome then 1 else 0) counted.length
      (myPieces.filter fun piece => piece.2.read "ownerId" = .string token.uid).length
      (myPieces.filter fun piece => piece.2.read "ownerId" ≠ .string token.uid).length)

/-! ## The documents -/

@[simp] theorem forget_deleteRecording (path : DocPath) (assetId : Option String) :
    (deleteRecording reached path assetId).forget = done () := by
  unfold deleteRecording
  split
  · split_ifs <;> rfl
  · rfl

@[simp] theorem forget_deleteRecordings (notes : List (DocPath × Fields)) :
    (deleteRecordings reached notes).forget = done () := by
  induction notes with
  | nil => rfl
  | cons note rest ih => rw [deleteRecordings, forget_bind, forget_deleteRecording, done_bind, ih]

theorem forget_sweepNotes (notes : List (DocPath × Fields)) :
    (sweepNotes asText reached notes).forget = Duet.sweepNotes notes := by
  induction notes with
  | nil => rfl
  | cons note rest ih =>
    rw [sweepNotes, Duet.sweepNotes]
    cases note.2.read "deletedAt" with
    | timestamp micros => simp [ih]
    | _ => exact ih

/-- The sweep does to the documents what it does without the storage. -/
theorem forget_sweepTombstonesBefore (cutoff : Int) :
    (sweepTombstonesBefore asText reached cutoff).forget = Duet.sweepTombstonesBefore cutoff := by
  rw [sweepTombstonesBefore, forget_bind, forget_embed, Duet.sweepTombstonesBefore]
  exact congrArg (listDocs (.deletedUntil cutoff) >>= ·) (funext (forget_sweepNotes asText reached))

theorem forget_leavePieces (uid : String) (schedule : Schedule)
    (pieces : List (DocPath × Fields)) :
    (leavePieces reached uid schedule pieces).forget = Duet.leavePieces uid schedule pieces := by
  induction pieces with
  | nil => rfl
  | cons piece rest ih => simp [leavePieces, Duet.leavePieces, ih]

theorem forget_purgePieces (uid : String) (schedule : Schedule)
    (myPieces : List (DocPath × Fields)) :
    (purgePieces reached uid schedule myPieces).forget =
      Duet.purgePieces uid schedule myPieces := by
  simp [purgePieces, Duet.purgePieces, forget_leavePieces]

/-- The deletion of an account does to the documents what it does without the storage. -/
theorem forget_deleteAccount (auth : Option Token) (recent : Bool) (schedule : Schedule) :
    (deleteAccount reached auth recent schedule).forget =
      Duet.deleteAccount auth recent schedule := by
  cases auth with
  | none => rfl
  | some token =>
    cases recent with
    | false => rfl
    | true => simp [deleteAccount, Duet.deleteAccount, forget_purgePieces]

end Storage

end Duet
