import Duet.Cloud.Documents

/-!
# The callables

`sendInvite`, `acceptInvite`, `leavePiece` and `deleteAccount` as programs of the Admin SDK, which
bypasses the rules. Each `get`, `list`, `commit` and `transaction` is one step; between two steps
anything else may happen to the documents.

The arguments a function draws from its surroundings stand beside its request: the generated
message id and the clock of `sendInvite`, and the order in which the bulk writers of
`deleteAccount` delete. `emailKey` is the JavaScript `trim` and `toLowerCase`.

The ids of a request and the key of an email are taken for segments of a path. The functions let
every other text through as well, and one with a slash names another document.
-/

namespace Duet

open Lib Program

/-! ## Reading untyped data -/

/-- `value?.key` of a value that may not be a map. -/
def fieldOf (value : Value) (key : String) : Value :=
  match value with
  | .map fields => Fields.read fields key
  | _ => .null

/-- `typeof value === 'string' && value.length > 0`. -/
def nonEmptyString? : Value → Option String
  | .string s => if s = "" then none else some s
  | _ => none

/-- `value ?? []`, where an array method is called on it. -/
def arrayOrEmpty? : Value → Option (List Value)
  | .null => some []
  | .array items => some items
  | _ => none

/-- `[...(value ?? [])]`; a string is spread into its characters. -/
def spread? : Value → Option (List Value)
  | .string s => some (s.toList.map fun c => .string (String.singleton c))
  | value => arrayOrEmpty? value

/-- `items.filter((c) => c.uid !== uid)`; reading a field of `null` fails. -/
def withoutUid? (uid : String) (items : List Value) : Option (List Value) :=
  if items.contains .null then none
  else some (items.filter fun item => fieldOf item "uid" ≠ .string uid)

/-! ## Bulk writers -/

/-- The writes of a bulk writer, one after another. -/
def commitEach : List Write → AdminProgram Unit
  | [] => done ()
  | write :: writes => do
    commit [write]
    commitEach writes

/-! ## Requests -/

/-- The ID token of a signed-in caller. -/
structure Token where
  uid : String
  name : Option String
  email : Option String
  deriving DecidableEq, Repr

/-- What a callable returns. -/
inductive Reply where
  | noAccount
  | sent (messageId recipientUid : String) (recipientEmail recipientDisplayName : Value)
  | accepted (pieceId ownerId : Value)
  | left (removed : Bool)
  | deleted (directoryEntries deviceTokens inboxMessages ownedPieces leftPieces : Nat)
  deriving DecidableEq, Repr

/-- The order in which a bulk writer performs its writes. -/
structure Schedule where
  order : List Write → List Write
  perm : ∀ writes, (order writes).Perm writes

/-- First come, first served. -/
def Schedule.inOrder : Schedule := ⟨id, fun _ => .refl _⟩

/-! ## `sendInvite` -/

/-- The message that `sendInvite` delivers. -/
def inviteMessage (recipientUid : String) (token : Token) (pieceId : String) (now : Int) : Fields :=
  Assoc.ofList [("toUid", .string recipientUid),
    ("title", .string (token.name.getD "Someone" ++ " invited you to collaborate")),
    ("body", .string "Join a shared piece on Duet."),
    ("data", mapOf [("type", .string "invite"), ("pieceId", .string pieceId),
      ("ownerId", .string token.uid), ("ownerName", .string (token.name.getD ""))]),
    ("sentAtMillis", .int now), ("read", .bool false), ("requiresAction", .bool true)]

/-- The last part of `sendInvite`: the recipient is resolved and the message delivered. The rules
let nobody store a `uid` that is not a string. -/
def deliverInvite (token : Token) (pieceId messageId : String) (now : Int) (entry : Option Fields) :
    AdminProgram Reply :=
  match entry with
  | none => done .noAccount
  | some entry =>
    if entry.read "discoverable" ≠ .bool true then done .noAccount
    else do
      let recipientUid ← orFail (entry.read "uid").asString .typeError
      commit [.set (.userInbox recipientUid messageId)
        (inviteMessage recipientUid token pieceId now)]
      done (.sent messageId recipientUid (entry.read "email") (entry.read "displayName"))

/-- The middle part of `sendInvite`: the caller must own the piece. -/
def checkOwner (emailKey : String → String) (token : Token) (pieceId inviteeEmail messageId : String)
    (now : Int) (piece : Option Fields) : AdminProgram Reply :=
  match piece with
  | none => fail (.httpsError "not-found" "That piece no longer exists.")
  | some piece =>
    if piece.read "ownerId" ≠ .string token.uid then
      fail (.httpsError "permission-denied" "Only the owner of a piece can invite collaborators.")
    else do
      let entry ← getDoc (.usersByEmail (emailKey inviteeEmail))
      deliverInvite token pieceId messageId now entry

/-- The id of the piece and the key of the email are taken for segments of a path. -/
def sendInvite (emailKey : String → String) (auth : Option Token) (data : Fields)
    (messageId : String) (now : Int) : AdminProgram Reply := do
  let token ← orFail auth (.httpsError "unauthenticated" "Sign in to send an invite.")
  let pieceId ← orFail (nonEmptyString? (data.read "pieceId"))
    (.httpsError "invalid-argument" "A pieceId is required.")
  let inviteeEmail ← orFail (nonEmptyString? (data.read "inviteeEmail"))
    (.httpsError "invalid-argument" "An inviteeEmail is required.")
  let piece ← getDoc (.pieces pieceId)
  checkOwner emailKey token pieceId inviteeEmail messageId now piece

/-! ## `acceptInvite` -/

/-- The transaction of `acceptInvite`: the caller is appended to the piece, unless it is gone or
they take part already. -/
def joinPiece (uid : String) (name email : Value) (pieceId : String) : Transaction :=
  .get (.pieces pieceId) fun
    | none => .commit []
    | some piece =>
      match arrayOrEmpty? (piece.read "participantIds") with
      | none => .abort .typeError
      | some participantIds =>
        if participantIds.contains (.string uid) then .commit []
        else match spread? (piece.read "collaborators") with
          | none => .abort .typeError
          | some collaborators => .commit [.update (.pieces pieceId)
              [("participantIds", .set (.array (participantIds ++ [.string uid]))),
                ("collaborators", .set (.array (collaborators ++
                  [mapOf [("uid", .string uid), ("name", name), ("email", email)]])))]]

/-- A string of the request, else the one of the token, else `null`. -/
def nameOr (value : Value) (token : Option String) : Value :=
  match value with
  | .string s => .string s
  | _ => .ofOption .string token

/-- The last part of `acceptInvite`: the message is marked read. -/
def consumeInvite (uid messageId : String) (message : Fields) : AdminProgram Reply := do
  commit [.merge (.userInbox uid messageId) [("read", .bool true)]]
  done (.accepted (fieldOf (message.read "data") "pieceId") (fieldOf (message.read "data") "ownerId"))

/-- The middle part of `acceptInvite`: the message must be an unread invite to the caller. -/
def useInvite (token : Token) (data : Fields) (messageId : String) (message : Option Fields) :
    AdminProgram Reply :=
  match message with
  | none => fail (.httpsError "not-found" "That invite no longer exists.")
  | some message =>
    if message.read "toUid" ≠ .string token.uid ∨
        fieldOf (message.read "data") "type" ≠ .string "invite" then
      fail (.httpsError "failed-precondition" "Not an invite for you.")
    else if message.read "read" = .bool true then
      fail (.httpsError "failed-precondition" "That invite was already used.")
    else match nonEmptyString? (fieldOf (message.read "data") "pieceId") with
      | none => consumeInvite token.uid messageId message
      | some pieceId => do
        transaction (joinPiece token.uid (nameOr (data.read "accepterName") token.name)
          (nameOr (data.read "accepterEmail") token.email) pieceId)
        consumeInvite token.uid messageId message

/-- The ids of the message and of its piece are taken for segments of a path. -/
def acceptInvite (auth : Option Token) (data : Fields) : AdminProgram Reply := do
  let token ← orFail auth (.httpsError "unauthenticated" "Sign in to accept an invite.")
  let messageId ← orFail (nonEmptyString? (data.read "messageId"))
    (.httpsError "invalid-argument" "A messageId is required.")
  let message ← getDoc (.userInbox token.uid messageId)
  useInvite token data messageId message

/-! ## `leavePiece` -/

/-- The rest of `leavePiece`, with the piece as it was read. -/
def leaveRead (uid pieceId : String) (piece : Option Fields) : AdminProgram Reply :=
  match piece with
  | none => done (.left false)
  | some data =>
    if data.read "ownerId" = .string uid then
      fail (.httpsError "failed-precondition"
        "An owner cannot leave their own piece; delete it instead.")
    else do
      let collaborators ← orFail ((arrayOrEmpty? (data.read "collaborators")).bind (withoutUid? uid))
        .typeError
      -- not in a transaction: the array read above is written back whole
      commit [.update (.pieces pieceId) [("collaborators", .set (.array collaborators)),
        ("participantIds", .arrayRemove (.string uid))]]
      commit [.delete (.layers pieceId uid)]
      done (.left true)

/-- The id of the piece is taken for a segment of a path. -/
def leavePiece (auth : Option Token) (data : Fields) : AdminProgram Reply := do
  let token ← orFail auth (.httpsError "unauthenticated" "Sign in to leave a piece.")
  let pieceId ← orFail (nonEmptyString? (data.read "pieceId"))
    (.httpsError "invalid-argument" "A pieceId is required.")
  let piece ← getDoc (.pieces pieceId)
  leaveRead token.uid pieceId piece

/-! ## `deleteAccount` -/

/-- The transaction of `deleteAccount`: the caller is dropped from the piece. -/
def dropFromPiece (uid pieceId : String) : Transaction :=
  .get (.pieces pieceId) fun
    | none => .commit []
    | some piece =>
      match arrayOrEmpty? (piece.read "participantIds"),
        (arrayOrEmpty? (piece.read "collaborators")).bind (withoutUid? uid) with
      | some participantIds, some collaborators => .commit [.update (.pieces pieceId)
          [("participantIds", .set (.array (participantIds.filter fun id => id ≠ .string uid))),
            ("collaborators", .set (.array collaborators))]]
      | _, _ => .abort .typeError

/-- `doc.id` of a piece. -/
def pieceIdOf : DocPath → String
  | .pieces pieceId => pieceId
  | _ => ""

/-- The pieces the caller only takes part in: their slice is deleted, then they are dropped. -/
def leavePieces (uid : String) (schedule : Schedule) : List (DocPath × Fields) → AdminProgram Unit
  | [] => done ()
  | piece :: rest => do
    let notes ← listDocs (.notesBy (pieceIdOf piece.1) uid)
    commitEach (schedule.order
      (.delete (.layers (pieceIdOf piece.1) uid) :: notes.map fun note => .delete note.1))
    transaction (dropFromPiece uid (pieceIdOf piece.1))
    leavePieces uid schedule rest

/-- The second half of `deleteAccount`: the caller's pieces. -/
def purgePieces (uid : String) (schedule : Schedule) (myPieces : List (DocPath × Fields)) :
    AdminProgram Unit := do
  commitEach (schedule.order
    ((myPieces.filter fun piece => piece.2.read "ownerId" = .string uid).map fun piece =>
      .delete piece.1))
  leavePieces uid schedule (myPieces.filter fun piece => piece.2.read "ownerId" ≠ .string uid)

/-- `recent` says that the caller signed in at most five minutes ago. -/
def deleteAccount (auth : Option Token) (recent : Bool) (schedule : Schedule) :
    AdminProgram Reply := do
  let token ← orFail auth
    (.httpsError "unauthenticated" "Account deletion requires a signed-in caller.")
  if !recent then
    fail (.httpsError "failed-precondition"
      "Account deletion requires a recent sign-in. Re-authenticate and try again.")
  else do
    let directory ← listDocs (.directoryOf token.uid)
    let deviceToken ← getDoc (.deviceTokens token.uid)
    commitEach (schedule.order
      (directory.map (fun entry => .delete entry.1) ++ [.delete (.deviceTokens token.uid)]))
    let counted ← listDocs (.inboxOf token.uid)
    let inbox ← listDocs (.inboxOf token.uid)
    commitEach (schedule.order (inbox.map fun message => .delete message.1))
    let myPieces ← listDocs (.piecesOf token.uid)
    purgePieces token.uid schedule myPieces
    done (.deleted directory.length (if deviceToken.isSome then 1 else 0) counted.length
      (myPieces.filter fun piece => piece.2.read "ownerId" = .string token.uid).length
      (myPieces.filter fun piece => piece.2.read "ownerId" ≠ .string token.uid).length)

end Duet
