import Duet.Cloud.Activity
import Duet.Cloud.Directory
import Duet.Cloud.Tombstones
import Duet.Lib.Jobs

/-!
# The backend

Every function of the backend, next to the clients: the callables, the triggers and the daily sweep
run as jobs on the documents, while clients commit what the rules permit. A trigger may run any
number of times and as late as it likes.

## Main definitions

* `sendNudge`, `enforceRateLimit`, `onPieceDeleted` — the functions that are not defined elsewhere.
* `Job` — a run of one of the functions.
* `Backend.step` — a client's commit, a new job, or the next operation of one.
-/

namespace Duet

open Lib Program

/-! ## `sendNudge` -/

/-- The message that `sendNudge` delivers. -/
def nudgeMessage (recipientUid fromName pieceId : String) (now : Int) : Fields :=
  Assoc.ofList [("toUid", .string recipientUid), ("title", .string (fromName ++ " added notes")),
    ("body", .string "Open the sheet to see what changed."),
    ("data", mapOf [("type", .string "nudge"), ("pieceId", .string pieceId),
      ("fromName", .string fromName)]),
    ("sentAtMillis", .int now), ("read", .bool false)]

/-- The last part of `sendNudge`: one message for each other participant, in one batch. The rules
and the functions store no participant that is not a string. -/
def deliverNudges (token : Token) (pieceId : String) (messageIds : Nat → String) (now : Int)
    (participantIds : List Value) : AdminProgram Unit := do
  let recipients ← orFail
    ((participantIds.filter fun uid => uid ≠ .string token.uid).mapM Value.asString) .typeError
  commit (recipients.mapIdx fun i recipientUid => .set (.userInbox recipientUid (messageIds i))
    (nudgeMessage recipientUid (token.name.getD "Someone") pieceId now))

/-- The id of the piece is taken for a segment of a path. -/
def sendNudge (auth : Option Token) (data : Fields) (messageIds : Nat → String) (now : Int) :
    AdminProgram Unit := do
  let token ← orFail auth (.httpsError "unauthenticated" "Sign in to nudge a collaborator.")
  let pieceId ← orFail (nonEmptyString? (data.read "pieceId"))
    (.httpsError "invalid-argument" "A pieceId is required.")
  let piece ← getDoc (.pieces pieceId)
  let piece ← orFail piece (.httpsError "not-found" "That piece no longer exists.")
  let participantIds ← orFail (arrayOrEmpty? (piece.read "participantIds")) .typeError
  if participantIds.contains (.string token.uid) then
    deliverNudges token pieceId messageIds now participantIds
  else fail (.httpsError "permission-denied"
    "Only a participant on a piece can nudge its collaborators.")

/-! ## `enforceRateLimit` -/

/-- Calls for each window. -/
def rateLimit : Int := 20

def windowMs : Int := 60000

/-- `windowStart?.toMillis() ?? 0`. -/
def windowStartOf? : Value → Option Int
  | .null => some 0
  | .timestamp micros => some (micros / 1000)
  | _ => none

/-- `count ?? 0`. -/
def countOf? : Value → Option Int
  | .null => some 0
  | .int n => some n
  | _ => none

/-- The transaction of `enforceRateLimit`: a new window, or one more call in the old one. -/
def takeCall (uid : String) (now : Int) : Transaction :=
  .get (.rateLimits uid) fun data =>
    match windowStartOf? ((data.getD []).read "windowStart") with
    | none => .abort .typeError
    | some windowStart =>
      if now - windowStart ≥ windowMs then
        .commit [.set (.rateLimits uid)
          (Assoc.ofList [("windowStart", .timestamp (now * 1000)), ("count", .int 1)])]
      else match countOf? ((data.getD []).read "count") with
        | none => .abort .typeError
        | some count =>
          if count ≥ rateLimit then
            .abort (.httpsError "resource-exhausted"
              "Too many lookups. Please wait a minute and try again.")
          else .commit [.update (.rateLimits uid) [("count", .set (.int (count + 1)))]]

def enforceRateLimit (now : Int) (uid : String) : AdminProgram Unit :=
  transaction (takeCall uid now)

/-! ## `onPieceDeleted` -/

/-- The path lies under the document of the piece. -/
def DocPath.isUnder (pieceId : String) : DocPath → Bool
  | .layers pieceId' _ | .notes pieceId' _ | .reads pieceId' _ => pieceId' == pieceId
  | _ => false

/-- `recursiveDelete` of the piece: what is under it, and its document. -/
def onPieceDeleted (pieceId : String) (schedule : Schedule) : AdminProgram Unit := do
  let descendants ← listDocs (.descendantsOf pieceId)
  commitEach (schedule.order
    ((descendants.map fun descendant => .delete descendant.1) ++ [.delete (.pieces pieceId)]))

/-! ## The jobs -/

/-- A run of one of the functions, with what it draws from its surroundings. -/
inductive Job where
  | request (request : Request)
  | lookupEmail (auth : Option Token) (data : Fields) (now : Int)
  | sendNudge (auth : Option Token) (data : Fields) (messageIds : Nat → String) (now : Int)
  | activity (activity : Activity) (now : DateTime)
  | pieceDeleted (pieceId : String) (schedule : Schedule)
  | gcTombstones (cutoff : Int)

/-- A program whose value nobody reads. -/
def discard {α : Type} (p : AdminProgram α) : AdminProgram Unit := p >>= fun _ => done ()

def Job.program (emailKey : String → String) : Job → AdminProgram Unit
  | request r => discard (r.program emailKey)
  | lookupEmail auth data now => discard (Duet.lookupEmail emailKey (enforceRateLimit now) auth data)
  | sendNudge auth data messageIds now => Duet.sendNudge auth data messageIds now
  | activity a now => a.trigger now
  | pieceDeleted pieceId schedule => onPieceDeleted pieceId schedule
  | gcTombstones cutoff => discard (sweepTombstonesBefore cutoff)

/-- The documents, and the jobs that have been started. -/
abbrev Backend := Jobs Job Operation Operation.Response CloudFailure Unit Cloud

/-- A batch of writes that a client commits. -/
structure ClientCommit where
  uid : String
  writes : List Write
  deriving DecidableEq, Repr

abbrev BackendEvent := JobEvent ClientCommit Job CloudFailure

namespace Backend

/-- What a client may commit: each write is judged against the documents before the batch. -/
def commits (cloud : Cloud) (batch : ClientCommit) : Option Cloud :=
  if (Operation.commit batch.writes).Permitted (some batch.uid) cloud then
    (cloud.commit batch.writes).toOption
  else none

theorem commits_eq_some {c c' : Cloud} {batch : ClientCommit} (h : commits c batch = some c') :
    (∀ write ∈ batch.writes, c.permitsWrite (some batch.uid) write) ∧
      c.commit batch.writes = .ok c' := by
  rw [commits] at h
  split_ifs at h with hpermitted
  refine ⟨hpermitted, ?_⟩
  cases hcommit : c.commit batch.writes with
  | error failure =>
    rw [hcommit] at h
    cases h
  | ok cloud =>
    rw [hcommit] at h
    exact congrArg _ (Option.some.inj h)

def step (emailKey : String → String) : Backend → BackendEvent → Option Backend :=
  Jobs.step (Job.program emailKey) Operation.perform commits

end Backend

end Duet
