import Duet.Cloud.Client

/-!
# `FirestorePieceRepository`

The pieces of a user in the cloud. A document holds a piece up to its base PDF, which is staged
under `pieces/` on the device; `basePaths` remembers where. A mutation reads the document and
writes it whole in one transaction.

The argument `user` is the signed-in user.
-/

namespace Duet.Firestore

open Lib Program

/-! ## Staging -/

/-- `_basePathFor`. -/
def basePathFor (pieceId : String) : ClientProgram String := do
  let paths ← ask .readBasePaths
  done ((paths.get pieceId).getD "")

/-- `_recordBasePath`. -/
def recordBasePath (pieceId path : String) : ClientProgram Unit := do
  let paths ← ask .readBasePaths
  ask (.writeBasePaths (paths.set pieceId path))

/-- `_forgetBasePath`. -/
def forgetBasePath (pieceId : String) : ClientProgram Unit := do
  let paths ← ask .readBasePaths
  ask (.writeBasePaths (paths.erase pieceId))

/-- `_stageLocally`: checksum the source, then copy it; returns both. -/
def stageLocally (platform : Platform) (id sourcePath : String) :
    ClientProgram (String × String) := do
  let checksum ← ask (.checksum sourcePath)
  let destPath := piecesPath platform.documentsDirectory id sourcePath
  ask (.copyFile sourcePath destPath)
  done (checksum, destPath)

/-! ## Reading -/

/-- `_pieceFrom`. -/
def pieceFrom (id : String) (data : Option Fields) (basePdfPath : String) :
    Except CloudFailure Piece :=
  match data with
  | none => .error (.stateError s!"Unknown piece: {id}")
  | some data =>
    match pieceFromFirestore id data basePdfPath with
    | none => .error .typeError
    | some piece => .ok piece

/-- The piece of a document that has been read. -/
def readPiece (pieceId : String) (data : Option Fields) : ClientProgram Piece := do
  let basePdfPath ← basePathFor pieceId
  match pieceFrom pieceId data basePdfPath with
  | .ok piece => done piece
  | .error e => fail e

def getPiece (pieceId : String) : ClientProgram Piece := guarding pieceId do
  let snapshot ← onFirestore (getDoc (.pieces pieceId))
  readPiece pieceId snapshot

/-! ## Mutations -/

/-- The transaction of `_mutate`: what is read, changed and written whole. `change` returns no
piece for a no-op. The path of the base PDF is not written. -/
def mutation (pieceId : String) (now : DateTime)
    (change : Piece → Except CloudFailure (Option Piece)) : Transaction :=
  .get (.pieces pieceId) fun data =>
    match (pieceFrom pieceId data "").bind change with
    | .error e => .abort e
    | .ok none => .commit []
    | .ok (some changed) =>
      .commit [.set (.pieces pieceId) (pieceToFirestore { changed with updatedAt := now })]

/-- `_mutate`. -/
def mutate (pieceId : String) (change : Piece → Except CloudFailure (Option Piece)) :
    ClientProgram Unit := do
  let now ← ask .now
  onFirestore (transaction (mutation pieceId now change))

section

variable (platform : Platform) (user : String)

/-- The document of a new piece, written under an id. -/
def createPiece (id title ownerId : String) (ownerName : Option String)
    (collaborators : List Collaborator) (staged : String × String) : ClientProgram Piece := do
  let now ← ask .now
  let piece : Piece :=
    ⟨id, title, staged.1, staged.2, ownerId, ownerName, collaborators, now, now⟩
  onFirestore (commit [.set (.pieces id) (pieceToFirestore piece)])
  done piece

def importPiece (title sourcePath : String) (ownerName : Option String) : ClientProgram Piece :=
  guarding "" do
    let id ← ask .newDocId
    let staged ← stageLocally platform id sourcePath
    recordBasePath id staged.2
    createPiece id title user ownerName [] staged

def registerImportedPiece (pieceId title ownerId sourcePath : String)
    (collaboratorId ownerName collaboratorName : Option String) : ClientProgram Piece :=
  guarding pieceId do
    let snapshot ← onFirestore (getDoc (.pieces pieceId))
    if snapshot.isSome then fail (.stateError s!"Piece already exists: {pieceId}")
    else do
      let staged ← stageLocally platform pieceId sourcePath
      recordBasePath pieceId staged.2
      createPiece pieceId title ownerId ownerName
        (importedCollaborators collaboratorId collaboratorName) staged

def renamePiece (pieceId title : String) : ClientProgram Unit :=
  guarding pieceId (mutate pieceId fun piece => .ok (some { piece with title := title }))

/-- Owner-only. The layers, notes and reads of the piece stay: their removal is a function's. -/
def deletePiece (pieceId : String) : ClientProgram Unit := guarding pieceId do
  onFirestore (transaction (.get (.pieces pieceId) fun data =>
    match pieceFrom pieceId data "" with
    | .error e => .abort e
    | .ok piece =>
      if user ≠ piece.ownerId then
        .abort (.ownershipViolation pieceId (some "only the owner may delete a piece"))
      else .commit [.delete (.pieces pieceId)]))
  forgetBasePath pieceId

/-- The piece without one collaborator. -/
def withoutCollaborator (piece : Piece) (userId : String) : Piece :=
  { piece with collaborators := piece.collaborators.filter fun c => c.uid != userId }

def leavePiece (pieceId : String) : ClientProgram Unit :=
  guarding pieceId (mutate pieceId fun piece =>
    if user = piece.ownerId then
      .error (.stateError "The owner of this piece cannot leave it; delete it instead.")
    else if !piece.isCollaborator user then .ok none
    else .ok (some (withoutCollaborator piece user)))

/-- Owner-only. The collaborator's layer and notes stay. -/
def removeCollaborator (pieceId userId : String) : ClientProgram Unit :=
  guarding pieceId (mutate pieceId fun piece =>
    if user ≠ piece.ownerId then
      .error (.ownershipViolation pieceId (some "only the owner may remove a collaborator"))
    else if !piece.isCollaborator userId then .ok none
    else .ok (some (withoutCollaborator piece userId)))

end

/-- The collaborator's entry once a name and an email have been given: an old one keeps what is
not given anew. -/
def resolved (piece : Piece) (userId : String) (name email : Option String) : Collaborator :=
  match piece.collaborators.find? fun c => c.uid == userId with
  | none => ⟨userId, name, email⟩
  | some existing => ⟨userId, name <|> existing.name, email <|> existing.email⟩

/-- The collaborators with the entry in the place of the old one, or at the end. -/
def withCollaborator (piece : Piece) (entry : Collaborator) : List Collaborator :=
  (piece.collaborators.map fun c => if c.uid = entry.uid then entry else c) ++
    if piece.isCollaborator entry.uid then [] else [entry]

/-- A no-op when the entry is there as it would be written. -/
def addCollaborator (pieceId userId : String) (name email : Option String) : ClientProgram Unit :=
  guarding pieceId (mutate pieceId fun piece =>
    let entry := resolved piece userId name email
    if piece.collaborators.find? (fun c => c.uid == userId) = some entry then .ok none
    else .ok (some { piece with collaborators := withCollaborator piece entry }))

/-- Unlike `addCollaborator` it writes the piece in any case. -/
def pairCollaborator (pieceId collaboratorId : String)
    (collaboratorName collaboratorEmail ownerName : Option String) : ClientProgram Piece :=
  guarding pieceId do
    mutate pieceId fun piece =>
      let withOwner : Piece := { piece with ownerName := piece.ownerName <|> ownerName }
      let entry := resolved withOwner collaboratorId collaboratorName collaboratorEmail
      .ok (some { withOwner with collaborators := withCollaborator withOwner entry })
    let refreshed ← onFirestore (getDoc (.pieces pieceId))
    readPiece pieceId refreshed

def markOpened (user pieceId : String) : ClientProgram Unit := guarding pieceId do
  let now ← ask .now
  onFirestore (commit [.merge (.reads pieceId user)
    (Assoc.ofList [("uid", .string user), ("lastOpenedAt", toTimestamp now)])])

end Duet.Firestore
