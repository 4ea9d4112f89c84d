import Duet.Device.PieceRepository
import Duet.Lib.Async

/-!
# The invite services of one device

`LocalPieceRepository`'s members, `DeepLinkInviteService` and `DefaultCollaboratorInviteService`, as
one isolate runs them: what a call does between two of its awaits is done in one go. A preference is
written in memory before its `setString` is awaited.

Each call is given what it gets from outside: `now` is the clock, `token` a generated token.
-/

namespace Duet

open Lib Async

/-- A pending or consumed invite. -/
structure StoredInvite where
  token : String
  pieceId : String
  ownerId : String
  ownerName : Option String
  createdAtMillis : Int
  consumed : Bool
  deriving DecidableEq, Repr

/-- `pieces.reads.<uid>`, `pairing.invites` and the tier, beside the device. -/
structure App where
  device : Device
  reads : Assoc String (Assoc String Int)
  invites : List StoredInvite
  isPro : Bool
  deriving DecidableEq, Repr

/-- Why a call failed. -/
inductive AppFailure where
  | device (e : Failure)
  | inviteException (message : String)
  | atCapInviteException (message : String)
  deriving DecidableEq, Repr

/-- What a call awaits, with what it has read and goes on with. -/
inductive AppAwait where
  | getPiece
  | isProUser (piece : Piece) (isPro : Bool)
  | emit
  | addCollaborator
  | pairCollaborator (invites : List StoredInvite)
  | persist
  deriving DecidableEq, Repr

/-- A call on the app's repositories and services. -/
abbrev AppCall (α : Type) := Async AppAwait Unit App AppFailure α

namespace CollaboratorLimits

def freeTier : Nat := 1

def paid : Nat := 8

def capFor (isPro : Bool) : Nat := if isPro then paid else freeTier

def isAtCap (piece : Piece) (isPro : Bool) : Bool := capFor isPro ≤ piece.collaborators.length

/-- What a user is told at the cap. -/
def message : String := "Free plan allows 1 collaborator. Upgrade to invite more."

end CollaboratorLimits

/-! ## `LocalPieceRepository` -/

namespace App

/-- `_replace`: every piece of that id. -/
def replacePiece (app : App) (updated : Piece) : App :=
  { app with device := { app.device with
    pieces := app.device.pieces.map fun piece => if piece.id = updated.id then updated else piece } }

/-- `_persist`. -/
def persistPieces (app : App) : App :=
  { app with device := { app.device with
    storage := { app.device.storage with pieceRecords := some app.device.pieces } } }

end App

namespace LocalPieceRepository

/-- `getPiece`, and `_require`. -/
def getPiece (pieceId : String) : AppCall Piece := do
  let app ← get
  ofExcept ((app.device.getPiece pieceId).mapError .device)

/-- `_emit`. -/
def emit : AppCall Unit := do
  modify App.persistPieces
  suspend .emit

/-- The entry of a collaborator once a name and an email have been given: an old entry keeps what
is not given anew. -/
def resolved (piece : Piece) (userId : String) (name email : Option String) : Collaborator :=
  match piece.collaborators.find? fun c => c.uid == userId with
  | none => ⟨userId, name, email⟩
  | some existing => ⟨userId, name <|> existing.name, email <|> existing.email⟩

/-- The collaborators with the entry in the place of the old one, or at the end. -/
def withCollaborator (piece : Piece) (entry : Collaborator) : List Collaborator :=
  (piece.collaborators.map fun c => if c.uid = entry.uid then entry else c) ++
    if piece.isCollaborator entry.uid then [] else [entry]

/-- A no-op when the entry is there as it would be written. -/
def addCollaborator (now : DateTime) (pieceId userId : String) (name email : Option String) :
    AppCall Unit := do
  let piece ← getPiece pieceId
  let entry := resolved piece userId name email
  if piece.collaborators.find? (fun c => c.uid == userId) = some entry then done ()
  else do
    modify fun app => app.replacePiece
      { piece with collaborators := withCollaborator piece entry, updatedAt := now }
    emit

/-- The piece with its owner's name filled in where there is none. -/
def backfilled (piece : Piece) (ownerName : Option String) : Piece :=
  { piece with ownerName := piece.ownerName <|> ownerName }

/-- The app once the owner's name has been filled in. -/
def backfilling (piece : Piece) (ownerName : Option String) (app : App) : App :=
  if (backfilled piece ownerName).ownerName = piece.ownerName then app
  else app.replacePiece (backfilled piece ownerName)

def pairCollaborator (now : DateTime) (pieceId collaboratorId : String)
    (collaboratorName collaboratorEmail ownerName : Option String) : AppCall Piece := do
  let piece ← getPiece pieceId
  modify (backfilling piece ownerName)
  awaiting .addCollaborator
    (addCollaborator now pieceId collaboratorId collaboratorName collaboratorEmail)
  getPiece pieceId

end LocalPieceRepository

/-- `isProUser`, awaited by a call that has read the piece. -/
def isProUser (piece : Piece) : AppCall Bool := do
  let app ← get
  suspend (.isProUser piece app.isPro)
  done app.isPro

/-! ## `DeepLinkInviteService` -/

/-- An invite link; its uri is made of the token. -/
structure InviteLink where
  token : String
  pieceId : String
  ownerId : String
  deriving DecidableEq, Repr

/-- What is shown before an invite is accepted. -/
structure InviteDetails where
  pieceId : String
  pieceTitle : String
  ownerId : String
  ownerName : Option String
  deriving DecidableEq, Repr

namespace DeepLinkInviteService

open LocalPieceRepository

/-- `_persist`. -/
def persist (invites : List StoredInvite) : AppCall Unit := do
  modify fun app => { app with invites := invites }
  suspend .persist

/-- `_requireValid`. -/
def requireValid (invites : List StoredInvite) (token : String) : Except AppFailure StoredInvite :=
  match invites.find? fun invite => invite.token == token with
  | none => .error (.inviteException "This invite link is invalid or has expired.")
  | some invite =>
    if invite.consumed then .error (.inviteException "This invite has already been used.")
    else .ok invite

theorem requireValid_eq_ok {invites : List StoredInvite} {token : String} {invite : StoredInvite} :
    requireValid invites token = .ok invite ↔
      invites.find? (fun invite => invite.token == token) = some invite ∧
        invite.consumed = false := by
  rw [requireValid]
  cases hfind : invites.find? fun invite => invite.token == token with
  | none => simp
  | some found =>
    cases hconsumed : found.consumed
    · simp only [hconsumed]
      constructor
      · intro h
        obtain rfl := Except.ok.inj h
        exact ⟨rfl, hconsumed⟩
      · rintro ⟨h, -⟩
        rw [Option.some.inj h]
        rfl
    · simp only [hconsumed]
      constructor
      · intro h
        cases h
      · rintro ⟨h, hnot⟩
        obtain rfl := Option.some.inj h
        rw [hconsumed] at hnot
        cases hnot

def createInvite (token : String) (now : DateTime) (ownerId pieceId : String)
    (ownerName : Option String) : AppCall InviteLink := do
  let piece ← awaiting .getPiece (getPiece pieceId)
  if piece.ownerId ≠ ownerId then
    fail (.inviteException "Only the owner of this piece can invite for it.")
  else do
    let isPro ← isProUser piece
    if CollaboratorLimits.isAtCap piece isPro then fail (.inviteException CollaboratorLimits.message)
    else do
      let app ← get
      persist (app.invites ++
        [⟨token, pieceId, ownerId, ownerName, now.millisecondsSinceEpoch, false⟩])
      done ⟨token, pieceId, ownerId⟩

def resolveInvite (token : String) : AppCall InviteDetails := do
  let app ← get
  let invite ← ofExcept (requireValid app.invites token)
  let piece ← awaiting .getPiece (getPiece invite.pieceId)
  done ⟨piece.id, piece.title, invite.ownerId, piece.ownerName <|> invite.ownerName⟩

/-- The ledger with one invite consumed. -/
def consume (invites : List StoredInvite) (token : String) : List StoredInvite :=
  invites.map fun stored => if stored.token = token then { stored with consumed := true } else stored

/-- The ledger that was loaded first is written back at the end. -/
def acceptInvite (now : DateTime) (token collaboratorId : String)
    (collaboratorName collaboratorEmail : Option String) : AppCall Unit := do
  let app ← get
  let invites := app.invites
  let invite ← ofExcept (requireValid invites token)
  let piece ← awaiting .getPiece (getPiece invite.pieceId)
  let isPro ← isProUser piece
  if CollaboratorLimits.isAtCap piece isPro then fail (.inviteException CollaboratorLimits.message)
  else do
    let _ ← awaiting (.pairCollaborator invites) (pairCollaborator now invite.pieceId collaboratorId
      collaboratorName collaboratorEmail invite.ownerName)
    persist (consume invites token)

end DeepLinkInviteService

/-! ## `DefaultCollaboratorInviteService` -/

/-- A pending invite in the inbox. -/
structure InviteMessage where
  messageId : String
  pieceId : String
  ownerId : String
  ownerName : Option String
  deriving DecidableEq, Repr

namespace DefaultCollaboratorInviteService

open LocalPieceRepository

def acceptInvite (now : DateTime) (invite : InviteMessage) (accepterId : String)
    (accepterName accepterEmail : Option String) : AppCall Unit := do
  let piece ← awaiting .getPiece (getPiece invite.pieceId)
  let isPro ← isProUser piece
  if !piece.isCollaborator accepterId && CollaboratorLimits.isAtCap piece isPro then
    fail (.atCapInviteException CollaboratorLimits.message)
  else do
    awaiting .addCollaborator
      (addCollaborator now invite.pieceId accepterId accepterName accepterEmail)

end DefaultCollaboratorInviteService

/-! ## What the members do -/

namespace App

variable {app : App} {piece updated : Piece} {pieceId : String}

theorem id_of_findPiece {device : Device} (h : device.findPiece pieceId = some piece) :
    piece.id = pieceId := by
  have hid := List.find?_some h
  simpa using hid

/-- The piece that is replaced is found as it has been changed. -/
theorem findPiece_replacePiece (h : app.device.findPiece updated.id = some piece) :
    (app.replacePiece updated).device.findPiece updated.id = some updated := by
  simp only [Device.findPiece, replacePiece, List.find?_map] at h ⊢
  have hsame : ((fun p : Piece => p.id == updated.id) ∘ fun p =>
      if p.id = updated.id then updated else p) = fun p => p.id == updated.id := by
    funext p
    by_cases hp : p.id = updated.id <;> simp [hp]
  rw [hsame, h, Option.map_some, if_pos (id_of_findPiece h)]

theorem findPiece_replacePiece_of_ne (h : pieceId ≠ updated.id) :
    (app.replacePiece updated).device.findPiece pieceId = app.device.findPiece pieceId := by
  simp only [Device.findPiece, replacePiece, List.find?_map]
  have hsame : ((fun p : Piece => p.id == pieceId) ∘ fun p =>
      if p.id = updated.id then updated else p) = fun p => p.id == pieceId := by
    funext p
    by_cases hp : p.id = updated.id
    · simp [hp]
    · simp [hp]
  rw [hsame]
  cases hfind : app.device.pieces.find? fun p => p.id == pieceId with
  | none => rfl
  | some p =>
    have hid : p.id = pieceId := by simpa using List.find?_some hfind
    rw [Option.map_some, if_neg (hid ▸ h)]

@[simp] theorem findPiece_persistPieces :
    app.persistPieces.device.findPiece pieceId = app.device.findPiece pieceId := rfl
@[simp] theorem invites_replacePiece : (app.replacePiece updated).invites = app.invites := rfl
@[simp] theorem invites_persistPieces : app.persistPieces.invites = app.invites := rfl
@[simp] theorem isPro_replacePiece : (app.replacePiece updated).isPro = app.isPro := rfl
@[simp] theorem isPro_persistPieces : app.persistPieces.isPro = app.isPro := rfl

end App

namespace LocalPieceRepository

variable {app : App} {piece : Piece} {pieceId userId : String} {name email : Option String}
  {now : DateTime}

theorem getPiece_eq (h : app.device.findPiece pieceId = some piece) :
    ((app.device.getPiece pieceId).mapError AppFailure.device) = .ok piece := by
  rw [Device.getPiece, h]
  rfl

theorem getPiece_eq_error (h : app.device.findPiece pieceId = none) :
    ((app.device.getPiece pieceId).mapError AppFailure.device) =
      .error (.device (.stateError s!"Unknown piece: {pieceId}")) := by
  rw [Device.getPiece, h]
  rfl

/-- The collaborators of a piece to which one has been added. -/
def added (piece : Piece) (userId : String) (name email : Option String) : List Collaborator :=
  let entry := resolved piece userId name email
  if piece.collaborators.find? (fun c => c.uid == userId) = some entry then piece.collaborators
  else withCollaborator piece entry

/-- The app once a collaborator has been added. -/
def adding (app : App) (now : DateTime) (piece : Piece) (userId : String)
    (name email : Option String) : App :=
  let entry := resolved piece userId name email
  if piece.collaborators.find? (fun c => c.uid == userId) = some entry then app
  else (app.replacePiece
    { piece with collaborators := withCollaborator piece entry, updatedAt := now }).persistPieces

@[simp] theorem uid_resolved : (resolved piece userId name email).uid = userId := by
  rw [resolved]
  split <;> rfl

theorem findPiece_backfilling (h : app.device.findPiece pieceId = some piece)
    (ownerName : Option String) :
    (backfilling piece ownerName app).device.findPiece pieceId =
      some (backfilled piece ownerName) := by
  obtain rfl := App.id_of_findPiece h
  rw [backfilling]
  split_ifs with hsame
  · change (piece.ownerName <|> ownerName) = piece.ownerName at hsame
    rw [h, backfilled, hsame]
  · have hid : app.device.findPiece (backfilled piece ownerName).id = some piece := h
    exact App.findPiece_replacePiece hid

/-- The piece has the new collaborators, whether anything was written or not. -/
theorem collaborators_adding (h : app.device.findPiece pieceId = some piece) :
    ((adding app now piece userId name email).device.findPiece pieceId).map (·.collaborators) =
      some (added piece userId name email) := by
  obtain rfl := App.id_of_findPiece h
  simp only [adding, added]
  split_ifs with hsame
  · rw [h, Option.map_some]
  · have hfound := App.findPiece_replacePiece (show app.device.findPiece { piece with
      collaborators := withCollaborator piece (resolved piece userId name email),
      updatedAt := now }.id = some piece from h)
    rw [App.findPiece_persistPieces, hfound, Option.map_some]

theorem alone_getPiece :
    (getPiece pieceId).alone () app = ((app.device.getPiece pieceId).mapError .device, app) := by
  rw [getPiece, alone_get_bind]
  cases (app.device.getPiece pieceId).mapError AppFailure.device <;> rfl

theorem alone_addCollaborator (h : app.device.findPiece pieceId = some piece) :
    (addCollaborator now pieceId userId name email).alone () app =
      (.ok (), adding app now piece userId name email) := by
  rw [addCollaborator, alone_bind, alone_getPiece, getPiece_eq h]
  simp only [adding]
  split_ifs
  · rfl
  · rfl

theorem alone_pairCollaborator (h : app.device.findPiece pieceId = some piece)
    (ownerName : Option String) :
    ∃ paired, (pairCollaborator now pieceId userId name email ownerName).alone () app =
      (.ok paired, adding (backfilling piece ownerName app) now (backfilled piece ownerName) userId
        name email) := by
  have hfound := findPiece_backfilling h ownerName
  obtain ⟨paired, hpaired, -⟩ := Option.map_eq_some_iff.mp
    (@collaborators_adding _ _ _ userId name email now hfound)
  refine ⟨paired, ?_⟩
  rw [pairCollaborator, alone_bind, alone_getPiece, getPiece_eq h]
  simp only [alone_modify_bind]
  rw [alone_bind, alone_awaiting, alone_addCollaborator hfound]
  simp only [alone_getPiece, getPiece_eq hpaired]

end LocalPieceRepository

section

open LocalPieceRepository

variable {app : App} {piece : Piece} {pieceId userId : String} {name email : Option String}
  {now : DateTime}

theorem alone_isProUser : (isProUser piece).alone () app = (.ok app.isPro, app) := rfl

theorem DeepLinkInviteService.alone_acceptInvite {token : String} {invite : StoredInvite}
    (hvalid : requireValid app.invites token = .ok invite)
    (hpiece : app.device.findPiece invite.pieceId = some piece) :
    (acceptInvite now token userId name email).alone () app =
      if CollaboratorLimits.isAtCap piece app.isPro then
        (.error (.inviteException CollaboratorLimits.message), app)
      else (.ok (), { adding (backfilling piece invite.ownerName app) now
        (backfilled piece invite.ownerName) userId name email with
          invites := consume app.invites token }) := by
  obtain ⟨paired, hpaired⟩ := @alone_pairCollaborator app piece invite.pieceId userId name email now hpiece
    invite.ownerName
  rw [acceptInvite, alone_get_bind]
  dsimp only
  rw [hvalid, ofExcept_ok, done_bind, alone_bind, alone_awaiting, alone_getPiece,
    getPiece_eq hpiece]
  simp only [alone_bind, alone_isProUser]
  split_ifs with hcap
  · rfl
  · rw [alone_bind, alone_awaiting, hpaired]
    rfl

theorem DefaultCollaboratorInviteService.alone_acceptInvite {message : InviteMessage}
    (hpiece : app.device.findPiece message.pieceId = some piece) :
    (acceptInvite now message userId name email).alone () app =
      if !piece.isCollaborator userId && CollaboratorLimits.isAtCap piece app.isPro then
        (.error (.atCapInviteException CollaboratorLimits.message), app)
      else (.ok (), adding app now piece userId name email) := by
  rw [acceptInvite, alone_bind, alone_awaiting, alone_getPiece, getPiece_eq hpiece]
  simp only [alone_bind, alone_isProUser]
  split_ifs with hcap
  · rfl
  · rw [alone_awaiting, alone_addCollaborator hpiece]

end

end Duet
