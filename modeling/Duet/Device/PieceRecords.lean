import Duet.Cloud.Documents
import Duet.Device.State
import Duet.Domain.LocalTime
import Duet.Library.State
import Mathlib.Data.List.Sort

/-!
# `LocalPieceRepository` as it is stored

The pieces of the repository and the watermarks of its users, in memory and in the preferences. The
preferences hold JSON values, in which instants are local times without a zone, and watermarks are
whole milliseconds.

## Main definitions

* `pieceToJson`, `pieceFromJson` — a piece and its record.
* `LocalPieces` — the repository over its preferences; `LocalPieces.restarted` — a fresh one over the
  same preferences.
* `LocalPieceCall`, `LocalPieceCall.program` — the calls of the repository.

## Main results

* `pieceFromJson_pieceToJson` — a piece is read back if its instants are.
-/

namespace Duet

open Lib Effect

/-! ## Records -/

def collaboratorToJson (collaborator : Collaborator) : Value :=
  mapOf [("uid", .string collaborator.uid), ("name", .ofOption .string collaborator.name),
    ("email", .ofOption .string collaborator.email)]

def pieceToJson (zone : TimeZone) (piece : Piece) : Value :=
  mapOf [("id", .string piece.id), ("title", .string piece.title),
    ("basePdfChecksum", .string piece.basePdfChecksum), ("basePdfPath", .string piece.basePdfPath),
    ("ownerId", .string piece.ownerId), ("ownerName", .ofOption .string piece.ownerName),
    ("collaborators", .array (piece.collaborators.map collaboratorToJson)),
    ("createdAt", .string (zone.toIso8601String piece.createdAt)),
    ("updatedAt", .string (zone.toIso8601String piece.updatedAt))]

/-- `_collaboratorFromJson`. -/
def collaboratorFromJson (value : Value) : Option Collaborator := do
  let json ← value.asMap
  let uid ← (json.read "uid").asString
  let name ← (json.read "name").orNull Value.asString
  let email ← (json.read "email").orNull Value.asString
  pure ⟨uid, name, email⟩

/-- `_collaboratorsFromJson`. -/
def collaboratorsFromJson (json : Fields) : Option (List Collaborator) := do
  let raw ← (json.read "collaborators").orNull Value.asArray
  (raw.getD []).mapM collaboratorFromJson

def pieceFromJson (zone : TimeZone) (value : Value) : Option Piece := do
  let json ← value.asMap
  let id ← (json.read "id").asString
  let title ← (json.read "title").asString
  let basePdfChecksum ← (json.read "basePdfChecksum").asString
  let basePdfPath ← (json.read "basePdfPath").asString
  let ownerId ← (json.read "ownerId").asString
  let ownerName ← (json.read "ownerName").orNull Value.asString
  let collaborators ← collaboratorsFromJson json
  let createdAt ← (json.read "createdAt").asString.bind zone.parse
  let updatedAt ← (json.read "updatedAt").asString.bind zone.parse
  pure ⟨id, title, basePdfChecksum, basePdfPath, ownerId, ownerName, collaborators, createdAt,
    updatedAt⟩

/-- The instants of the piece are read back. -/
def Piece.ReadsBack (zone : TimeZone) (piece : Piece) : Prop :=
  zone.ReadsBack piece.createdAt ∧ zone.ReadsBack piece.updatedAt

@[simp] theorem collaboratorFromJson_collaboratorToJson (collaborator : Collaborator) :
    collaboratorFromJson (collaboratorToJson collaborator) = some collaborator := by
  simp [collaboratorFromJson, collaboratorToJson, mapOf, Assoc.ofList, Fields.read_set]

/-- A piece is read back if its instants are. -/
theorem pieceFromJson_pieceToJson {zone : TimeZone} {piece : Piece} (h : piece.ReadsBack zone) :
    pieceFromJson zone (pieceToJson zone piece) = some piece := by
  have hcollaborators : (piece.collaborators.map collaboratorToJson).mapM collaboratorFromJson =
      some piece.collaborators := by
    simpa using mapM_map_eq_some (g := fun c => c) collaboratorFromJson_collaboratorToJson
      piece.collaborators
  have hcreated := zone.parse_toIso8601String_iff.mpr h.1
  have hupdated := zone.parse_toIso8601String_iff.mpr h.2
  simp [pieceFromJson, pieceToJson, collaboratorsFromJson, mapOf, Assoc.ofList, Fields.read_set,
    hcollaborators, hcreated, hupdated]

/-- The watermarks of a user, in milliseconds. -/
def readsToJson (reads : Assoc String DateTime) : Value :=
  .map (reads.map fun entry => (entry.1, .int entry.2.millisecondsSinceEpoch))

def readsFromJson (value : Value) : Option (Assoc String DateTime) := do
  let json ← value.asMap
  json.mapM fun entry => do
    let millis ← entry.2.asInt
    let t ← DateTime.fromMillisecondsSinceEpoch millis
    pure (entry.1, t)

/-- Watermarks are read back at millisecond precision. -/
theorem readsFromJson_readsToJson (reads : Assoc String DateTime) :
    readsFromJson (readsToJson reads) =
      some (reads.map fun entry => (entry.1, entry.2.toMillisecondPrecision)) := by
  simp only [readsFromJson, readsToJson, Value.asMap_map, Option.bind_eq_bind, Option.bind_some]
  exact mapM_map_eq_some (fun entry => by simp) reads

/-- What is read is at millisecond precision. -/
theorem toMillisecondPrecision_of_readsFromJson {value : Value} {reads : Assoc String DateTime}
    (h : readsFromJson value = some reads) :
    ∀ entry ∈ reads, entry.2.toMillisecondPrecision = entry.2 := by
  intro entry hentry
  obtain ⟨json, -, hreads⟩ := Option.bind_eq_some_iff.mp h
  obtain ⟨raw, -, hraw⟩ := exists_of_mem_mapM hreads hentry
  obtain ⟨millis, -, hraw⟩ := Option.bind_eq_some_iff.mp hraw
  obtain ⟨t, ht, hraw⟩ := Option.bind_eq_some_iff.mp hraw
  obtain rfl := Option.some.inj hraw
  exact toMillisecondPrecision_fromMillisecondsSinceEpoch ht

/-! ## The repository -/

/-- The pieces of the running repository, its counter, and what the listeners to each user's
watermarks have been shown; `pieces.records` and `pieces.reads.<uid>` of the preferences. -/
structure LocalPieces where
  pieces : List Piece
  seq : Nat
  shownReads : Assoc String (Assoc String DateTime)
  records : Option Value
  reads : Assoc String Value
  deriving DecidableEq

/-- The surroundings of one call: who calls it and when, what `_copyIntoPiecesStorage` comes to, and
what the stores of annotations and recordings come to. -/
structure PieceEnv where
  currentUserId : String
  idTime : DateTime
  now : DateTime
  copied : Except Failure (String × String)
  annotations : Except Failure Unit

abbrev PieceAction (α : Type) := Effect LocalPieces Failure α

/-- The value that a call of another store comes to. -/
def orThrow {α : Type} : Except Failure α → PieceAction α
  | .ok a => pure a
  | .error e => fail e

namespace LocalPieces

/-- `_load`. -/
def load (zone : TimeZone) (records : Option Value) : Option (List Piece) :=
  match records with
  | none => some []
  | some decoded => decoded.asArray.bind fun entries => entries.mapM (pieceFromJson zone)

/-- Nothing is stored. -/
def fresh : LocalPieces := ⟨[], 0, [], none, []⟩

/-- A fresh repository over the same preferences. -/
def restarted (zone : TimeZone) (s : LocalPieces) : Option LocalPieces :=
  (load zone s.records).map fun pieces => ⟨pieces, 0, [], s.records, s.reads⟩

/-- `_findOrNull`. -/
def findPiece (s : LocalPieces) (pieceId : String) : Option Piece :=
  s.pieces.find? (·.id == pieceId)

/-- `getPiece`. -/
def getPiece (s : LocalPieces) (pieceId : String) : Except Failure Piece :=
  match s.findPiece pieceId with
  | none => .error (.stateError s!"Unknown piece: {pieceId}")
  | some piece => .ok piece

/-- `_visibleTo`, which `watchPieces` yields to the user. -/
def watchPieces (s : LocalPieces) (userId : String) : List Piece :=
  (s.pieces.filter (·.isParticipant userId)).insertionSort
    fun a b => b.updatedAt.micros ≤ a.updatedAt.micros

/-- `_loadReads`. -/
def loadReads (s : LocalPieces) (userId : String) : Option (Assoc String DateTime) :=
  match s.reads.get userId with
  | none => some []
  | some decoded => readsFromJson decoded

/-- The watermarks of a user as `watchReads` shows them: what its listeners have been sent, or what a
new listener is. -/
def watchReads (s : LocalPieces) (userId : String) : Option (Assoc String DateTime) :=
  match s.shownReads.get userId with
  | some shown => some shown
  | none => s.loadReads userId

/-- `isUnread`, in the library of a user. -/
def isUnread (s : LocalPieces) (userId : String) (piece : Piece) : Option Bool :=
  (s.watchReads userId).map fun reads =>
    LibraryState.isUnread ⟨userId, s.watchPieces userId, reads⟩ piece

/-- `_replace`. -/
def replace (s : LocalPieces) (updated : Piece) : LocalPieces :=
  { s with pieces := s.pieces.map fun piece => if piece.id = updated.id then updated else piece }

/-- `_persist`. -/
def persist (zone : TimeZone) (s : LocalPieces) : LocalPieces :=
  { s with records := some (.array (s.pieces.map (pieceToJson zone))) }

/-- `_require`. -/
def require (pieceId : String) : PieceAction Piece := do
  let s ← get
  orFail (s.findPiece pieceId) (.stateError s!"Unknown piece: {pieceId}")

variable (zone : TimeZone) (env : PieceEnv)

/-- `_emit`. -/
def emit : PieceAction Unit := modify (persist zone)

def markOpened (pieceId : String) : PieceAction Unit := do
  let s ← get
  let loaded ← orFail (s.loadReads env.currentUserId) .typeError
  let reads := loaded.set pieceId env.now
  modify fun s => { s with
    reads := s.reads.set env.currentUserId (readsToJson reads)
    shownReads := s.shownReads.set env.currentUserId reads }

/-- A new piece, with the file that has been copied for it. -/
def register (id title ownerId : String) (ownerName : Option String)
    (collaborators : List Collaborator) : PieceAction Unit := do
  let copied ← orThrow env.copied
  let piece : Piece := ⟨id, title, copied.1, copied.2, ownerId, ownerName, collaborators, env.now,
    env.now⟩
  modify fun s => { s with pieces := s.pieces ++ [piece] }
  emit zone

def importPiece (title : String) (ownerName : Option String) : PieceAction Unit := do
  let s ← get
  modify fun s => { s with seq := s.seq + 1 }
  register zone env s!"piece_{env.idTime.micros}_{s.seq}" title env.currentUserId ownerName []

def registerImportedPiece (pieceId title ownerId : String)
    (collaboratorId ownerName collaboratorName : Option String) : PieceAction Unit := do
  let s ← get
  if (s.findPiece pieceId).isSome then
    fail (.stateError s!"Piece already exists locally: {pieceId}")
  else do
    let collaborators := collaboratorId.toList.map fun uid => ⟨uid, collaboratorName, none⟩
    register zone env pieceId title ownerId ownerName collaborators

def renamePiece (pieceId title : String) : PieceAction Unit := do
  let piece ← require pieceId
  modify fun s => s.replace { piece with
    title := title
    updatedAt := env.now }
  emit zone

def deletePiece (pieceId : String) : PieceAction Unit := do
  let piece ← require pieceId
  if env.currentUserId ≠ piece.ownerId then
    fail (.ownershipViolation pieceId (some "only the owner may delete a piece"))
  else do
    orThrow env.annotations
    modify fun s => { s with pieces := s.pieces.filter fun piece => piece.id ≠ pieceId }
    emit zone

/-- The piece without a collaborator. -/
def without (piece : Piece) (userId : String) (now : DateTime) : Piece :=
  { piece with
    collaborators := piece.collaborators.filter fun c => c.uid != userId
    updatedAt := now }

def leavePiece (pieceId : String) : PieceAction Unit := do
  let piece ← require pieceId
  if env.currentUserId = piece.ownerId then
    fail (.stateError "The owner of this piece cannot leave it; delete it instead.")
  else if !piece.isCollaborator env.currentUserId then pure ()
  else do
    modify fun s => s.replace (without piece env.currentUserId env.now)
    emit zone
    orThrow env.annotations

def removeCollaborator (pieceId userId : String) : PieceAction Unit := do
  let piece ← require pieceId
  if env.currentUserId ≠ piece.ownerId then
    fail (.ownershipViolation pieceId (some "only the owner may remove a collaborator"))
  else if !piece.isCollaborator userId then pure ()
  else do
    modify fun s => s.replace (without piece userId env.now)
    emit zone
    orThrow env.annotations

/-- The collaborator that is added, or filled in where the piece has one. -/
def resolved (piece : Piece) (userId : String) (name email : Option String) : Collaborator :=
  match piece.collaborators.find? (·.uid == userId) with
  | none => ⟨userId, name, email⟩
  | some existing => ⟨userId, name <|> existing.name, email <|> existing.email⟩

/-- Adding the collaborator changes nothing. -/
def isAdded (piece : Piece) (userId : String) (name email : Option String) : Bool :=
  piece.collaborators.find? (·.uid == userId) == some (resolved piece userId name email)

/-- The piece with the collaborator. -/
def withCollaborator (piece : Piece) (userId : String) (name email : Option String)
    (now : DateTime) : Piece :=
  let collaborator := resolved piece userId name email
  { piece with
    collaborators := (piece.collaborators.map fun c => if c.uid = userId then collaborator else c) ++
      if piece.isCollaborator userId then [] else [collaborator]
    updatedAt := now }

def addCollaborator (pieceId userId : String) (name email : Option String) : PieceAction Unit := do
  let piece ← require pieceId
  if isAdded piece userId name email then pure ()
  else do
    modify fun s => s.replace (withCollaborator piece userId name email env.now)
    emit zone

/-- A piece without a name of its owner gets one. -/
def backfilled (piece : Piece) (ownerName : Option String) : Piece :=
  { piece with ownerName := piece.ownerName <|> ownerName }

def pairCollaborator (pieceId collaboratorId : String)
    (collaboratorName collaboratorEmail ownerName : Option String) : PieceAction Unit := do
  let piece ← require pieceId
  if (backfilled piece ownerName).ownerName ≠ piece.ownerName then
    modify fun s => s.replace (backfilled piece ownerName)
  addCollaborator zone env pieceId collaboratorId collaboratorName collaboratorEmail
  let _ ← require pieceId

end LocalPieces

/-! ## The calls -/

inductive LocalPieceCall where
  | markOpened (pieceId : String)
  | importPiece (title : String) (ownerName : Option String)
  | registerImportedPiece (pieceId title ownerId : String)
      (collaboratorId ownerName collaboratorName : Option String)
  | renamePiece (pieceId title : String)
  | deletePiece (pieceId : String)
  | leavePiece (pieceId : String)
  | addCollaborator (pieceId userId : String) (name email : Option String)
  | removeCollaborator (pieceId userId : String)
  | pairCollaborator (pieceId collaboratorId : String)
      (collaboratorName collaboratorEmail ownerName : Option String)

def LocalPieceCall.program (zone : TimeZone) (env : PieceEnv) : LocalPieceCall → PieceAction Unit
  | markOpened pieceId => LocalPieces.markOpened env pieceId
  | importPiece title ownerName => LocalPieces.importPiece zone env title ownerName
  | registerImportedPiece pieceId title ownerId collaboratorId ownerName collaboratorName =>
    LocalPieces.registerImportedPiece zone env pieceId title ownerId collaboratorId ownerName
      collaboratorName
  | renamePiece pieceId title => LocalPieces.renamePiece zone env pieceId title
  | deletePiece pieceId => LocalPieces.deletePiece zone env pieceId
  | leavePiece pieceId => LocalPieces.leavePiece zone env pieceId
  | addCollaborator pieceId userId name email =>
    LocalPieces.addCollaborator zone env pieceId userId name email
  | removeCollaborator pieceId userId => LocalPieces.removeCollaborator zone env pieceId userId
  | pairCollaborator pieceId collaboratorId collaboratorName collaboratorEmail ownerName =>
    LocalPieces.pairCollaborator zone env pieceId collaboratorId collaboratorName collaboratorEmail
      ownerName

end Duet
