import Duet.Domain.Piece
import Duet.Lib.Async
import Duet.Lib.Text
import Duet.Lib.Transition
import Mathlib.Algebra.Order.Ring.Unbundled.Rat

/-!
# `ImportPieceBloc`

A PDF is picked and named, a piece is created from it, and its base PDF is uploaded. The handlers
run up to their awaits, and the upload calls back in between. A piece whose upload has failed or been
cancelled is kept for the next submit, whatever has been picked or typed since.

## Main definitions

* `ImportPieceBloc` — the state of the bloc, its fields, and the pieces created so far.
* `ImportEvent`, `ImportEvent.program` — the events and callbacks, and their handlers.
* `Imports.step` — the handlers that run, and one event.
* `ImportSegment` — what a handler does from one await to the next.
-/

namespace Duet

open Lib Async

/-! ## The state -/

inductive ImportStatus where
  | awaitingPick | validating | invalid | naming | success
  deriving DecidableEq, Repr

structure UploadProgressEvent where
  bytesTransferred : Int
  totalBytes : Int
  skipped : Bool
  deriving DecidableEq, Repr

/-- `fraction`. -/
def UploadProgressEvent.fraction (p : UploadProgressEvent) : ℚ :=
  if p.skipped then 1
  else if p.totalBytes ≤ 0 then 0
  else max 0 (min 1 ((p.bytesTransferred : ℚ) / p.totalBytes))

structure ImportPieceState where
  status : ImportStatus
  sourcePath : Option String
  title : String
  isSubmitting : Bool
  progress : Option ℚ
  piece : Option Piece
  error : Option String
  submitError : Option String
  deriving DecidableEq, Repr

namespace ImportPieceState

def initial : ImportPieceState := ⟨.awaitingPick, none, "", false, none, none, none, none⟩

def invalid (error : String) : ImportPieceState :=
  ⟨.invalid, none, "", false, none, none, some error, none⟩

def naming (sourcePath title : String) : ImportPieceState :=
  ⟨.naming, some sourcePath, title, false, none, none, none, none⟩

def canSubmit (s : ImportPieceState) : Bool :=
  s.status == .naming && !s.isSubmitting && !(trim s.title).isEmpty

end ImportPieceState

/-- A piece that `importPiece` has created, after how many picks, and from what. -/
structure CreatedPiece where
  pick : Nat
  sourcePath : String
  title : String
  piece : Piece
  deriving DecidableEq, Repr

/-- The state of the bloc and its fields; an upload and its completer are named by a number.
`listening` are the uploads that still call back, `completed` the completers that are completed and
`ended` the emitters that are done. `picks` counts the picks that succeeded; `created` are the pieces
that have been created, `uploaded` those whose upload has run to completion. -/
structure ImportPieceBloc where
  state : ImportPieceState
  createdPiece : Option Piece
  uploadSubscription : Option Nat
  uploadCompleter : Option Nat
  listening : List (Nat × Piece)
  completed : List Nat
  ended : List Nat
  uploads : Nat
  picks : Nat
  created : List CreatedPiece
  uploaded : List Piece
  deriving DecidableEq, Repr

/-- What a handler awaits. -/
inductive ImportAwait where
  | pick
  | openPdf (path suggestedTitle : String)
  | importPiece (sourcePath title : String)
  | upload (n : Nat)
  | cancel (n : Nat)
  deriving DecidableEq, Repr

/-- What comes back. -/
inductive ImportReply where
  | picked (file : Option (String × String))
  | opened (result : Except String Int)
  | imported (result : Except String Piece)
  | completed
  | cancelled

/-- Why a handler ends with an error: a completer is completed once more. -/
inductive ImportFailure where
  | alreadyCompleted
  | mismatch
  deriving DecidableEq, Repr

abbrev ImportProgram (α : Type) := Async ImportAwait ImportReply ImportPieceBloc ImportFailure α

namespace ImportPieceBloc

def initial : ImportPieceBloc :=
  ⟨.initial, none, none, none, [], [], [], 0, 0, [], []⟩

/-! ## What the handlers do -/

def validating (b : ImportPieceBloc) : ImportPieceBloc :=
  { b with state := { b.state with status := .validating } }

/-- The picked file is a PDF. -/
def named (b : ImportPieceBloc) (path suggestedTitle : String) : ImportPieceBloc :=
  { b with state := .naming path suggestedTitle, picks := b.picks + 1 }

def rejected (b : ImportPieceBloc) (error : String) : ImportPieceBloc :=
  { b with state := .invalid error }

/-- `_onTitleChanged`. -/
def retitled (b : ImportPieceBloc) (title : String) : ImportPieceBloc :=
  if b.state.status = .naming then { b with state := { b.state with title := title } } else b

def submitting (b : ImportPieceBloc) : ImportPieceBloc :=
  { b with state := { b.state with isSubmitting := true, submitError := none, progress := some 0 } }

/-- The piece has been created, and is kept. -/
def creating (b : ImportPieceBloc) (sourcePath title : String) (piece : Piece) : ImportPieceBloc :=
  { b with
    createdPiece := some piece
    created := b.created ++ [⟨b.picks, sourcePath, title, piece⟩] }

def submitFailed (b : ImportPieceBloc) (error : String) : ImportPieceBloc :=
  { b with state := { b.state with
      isSubmitting := false
      submitError := some error
      progress := none } }

/-- The upload begins, and calls back from now on. -/
def uploading (b : ImportPieceBloc) (piece : Piece) : ImportPieceBloc :=
  { b with
    uploads := b.uploads + 1
    uploadSubscription := some b.uploads
    uploadCompleter := some b.uploads
    listening := b.listening ++ [(b.uploads, piece)] }

/-- The handler of the submit ends. -/
def ending (b : ImportPieceBloc) (n : Nat) : ImportPieceBloc :=
  { b with uploadSubscription := none, uploadCompleter := none, ended := b.ended ++ [n] }

/-- The upload calls back no more. -/
def silenced (b : ImportPieceBloc) (n : Nat) : ImportPieceBloc :=
  { b with listening := b.listening.filter fun upload => upload.1 ≠ n }

/-- `completer.complete()`, unless it is completed. -/
def complete (b : ImportPieceBloc) (n : Nat) : ImportPieceBloc :=
  if n ∈ b.completed then b else { b with completed := b.completed ++ [n] }

/-- The upload is cancelled, and the form is back. -/
def cancelled (b : ImportPieceBloc) : ImportPieceBloc :=
  { b with
    uploadSubscription := none
    state := { b.state with isSubmitting := false, progress := none } }

/-- The piece of an upload. -/
def pieceOf (b : ImportPieceBloc) (n : Nat) : Option Piece :=
  (b.listening.find? fun upload => upload.1 == n).map (·.2)

/-! ### What an upload calls back -/

def onProgress (b : ImportPieceBloc) (n : Nat) (progress : UploadProgressEvent) : ImportPieceBloc :=
  if n ∈ b.ended then b
  else { b with state := { b.state with progress := some progress.fraction } }

/-- `onError`: `cancelOnError` ends the callbacks. -/
def onError (b : ImportPieceBloc) (n : Nat) (error : String) : ImportPieceBloc :=
  ((if n ∈ b.ended then b else b.submitFailed error).complete n).silenced n

/-- `onDone`. The stream ends when the upload has run to completion, and when it is cancelled
elsewhere. -/
def onDone (b : ImportPieceBloc) (n : Nat) (piece : Piece) (ran : Bool) : ImportPieceBloc :=
  let b : ImportPieceBloc := { b with
    createdPiece := none
    uploaded := if ran then b.uploaded ++ [piece] else b.uploaded }
  ((if n ∈ b.ended then b
    else { b with state := { b.state with
      status := .success
      piece := some piece
      isSubmitting := false } }).complete n).silenced n

end ImportPieceBloc

/-! ## The handlers -/

/-- The events of the bloc, and the callbacks of an upload; `ran` says that a stream ends because the
upload has run to completion. -/
inductive ImportEvent where
  | pickRequested
  | titleChanged (title : String)
  | submitted
  | cancelled
  | uploadProgress (n : Nat) (progress : UploadProgressEvent)
  | uploadError (n : Nat) (error : String)
  | uploadDone (n : Nat) (ran : Bool)
  deriving DecidableEq, Repr

namespace ImportEvent

/-- `_onPickRequested`. -/
def onPickRequested : ImportProgram Unit := do
  match ← suspend .pick with
  | .picked none => done ()
  | .picked (some (path, suggestedTitle)) =>
    modify ImportPieceBloc.validating
    match ← suspend (.openPdf path suggestedTitle) with
    | .opened (.ok _) => modify fun b => b.named path suggestedTitle
    | .opened (.error error) => modify fun b => b.rejected error
    | _ => fail .mismatch
  | _ => fail .mismatch

/-- The upload of the piece; the handler ends when its completer is completed. -/
def upload (piece : Piece) : ImportProgram Unit := do
  let b ← get
  modify fun b => b.uploading piece
  let _ ← suspend (.upload b.uploads)
  modify fun b' => b'.ending b.uploads

/-- `_onSubmitted`. -/
def onSubmitted : ImportProgram Unit := do
  let b ← get
  match b.state.sourcePath with
  | none => done ()
  | some sourcePath =>
    if !b.state.canSubmit then done ()
    else do
      modify ImportPieceBloc.submitting
      match b.createdPiece with
      | some piece => upload piece
      | none =>
        match ← suspend (.importPiece sourcePath (trim b.state.title)) with
        | .imported (.ok piece) => do
          modify fun b' => b'.creating sourcePath (trim b.state.title) piece
          upload piece
        | .imported (.error error) => modify fun b => b.submitFailed error
        | _ => fail .mismatch

/-- `_onCancelled`. -/
def onCancelled : ImportProgram Unit := do
  let b ← get
  match b.uploadSubscription with
  | none => done ()
  | some n =>
    if !b.state.isSubmitting then done ()
    else do
      modify fun b => b.silenced n
      let _ ← suspend (.cancel n)
      modify ImportPieceBloc.cancelled
      let b ← get
      match b.uploadCompleter with
      | none => done ()
      | some m =>
        if m ∈ b.completed then fail .alreadyCompleted
        else modify fun b => { b.complete m with uploadCompleter := none }

def program : ImportEvent → ImportProgram Unit
  | pickRequested => onPickRequested
  | titleChanged title => modify fun b => b.retitled title
  | submitted => onSubmitted
  | cancelled => onCancelled
  | uploadProgress n progress => modify fun b => b.onProgress n progress
  | uploadError n error => modify fun b => b.onError n error
  | uploadDone n ran => do
    let b ← get
    match b.pieceOf n with
    | none => done ()
    | some piece => modify fun b => b.onDone n piece ran

end ImportEvent

/-- What comes back is what has been asked for; a submit goes on when its completer is completed. -/
def ImportAwait.accepts (b : ImportPieceBloc) : ImportAwait → ImportReply → Bool
  | pick, .picked _ => true
  | openPdf _ _, .opened _ => true
  | importPiece _ _, .imported _ => true
  | upload n, .completed => b.completed.contains n
  | cancel _, .cancelled => true
  | _, _ => false

/-! ## Runs -/

/-- The bloc, and the handlers that run. -/
abbrev Imports := Lib.Isolate ImportEvent ImportAwait ImportReply ImportPieceBloc ImportFailure Unit

abbrev ImportStep := Lib.IsolateEvent ImportEvent ImportReply

namespace Imports

/-- What can happen: an upload calls back while it is listened to. -/
def enabled (s : Imports) : ImportStep → Bool
  | .call (.uploadProgress n _) | .call (.uploadError n _) | .call (.uploadDone n _) =>
    (s.state.pieceOf n).isSome
  | .call _ => true
  | .resume i reply =>
    ((s.running[i]?).bind fun task => task.rest.point?).any fun point => point.accepts s.state reply
  | .kill => false

/-- One event of the bloc. -/
def step (s : Imports) (e : ImportStep) : Option Imports :=
  if s.enabled e then Lib.Isolate.step ImportEvent.program id s e else none

end Imports

/-! ## The segments of the handlers -/

/-- What a handler does from where it begins or is resumed, with what comes back, to where it
stops. -/
inductive ImportSegment : ImportEvent → Option (ImportAwait × ImportReply) → ImportPieceBloc →
    Stop ImportAwait ImportFailure Unit → ImportPieceBloc → Prop where
  | picking (b) : ImportSegment .pickRequested none b (.waits .pick) b
  | noPick (b) : ImportSegment .pickRequested (some (.pick, .picked none)) b (.ends (.ok ())) b
  | picked (b path suggestedTitle) : ImportSegment .pickRequested
    (some (.pick, .picked (some (path, suggestedTitle)))) b (.waits (.openPdf path suggestedTitle))
      b.validating
  | named (b path suggestedTitle pages) : ImportSegment .pickRequested
    (some (.openPdf path suggestedTitle, .opened (.ok pages))) b (.ends (.ok ()))
      (b.named path suggestedTitle)
  | rejected (b path suggestedTitle error) : ImportSegment .pickRequested
    (some (.openPdf path suggestedTitle, .opened (.error error))) b (.ends (.ok ()))
      (b.rejected error)
  | retitled (b title) : ImportSegment (.titleChanged title) none b (.ends (.ok ())) (b.retitled title)
  | notSubmitted (b) : ImportSegment .submitted none b (.ends (.ok ())) b
  | importing (b sourcePath) : b.state.sourcePath = some sourcePath → b.state.canSubmit = true →
    b.createdPiece = none → ImportSegment .submitted none b
      (.waits (.importPiece sourcePath (trim b.state.title))) b.submitting
  | resubmitting (b sourcePath piece) : b.state.sourcePath = some sourcePath →
    b.state.canSubmit = true → b.createdPiece = some piece → ImportSegment .submitted none b
      (.waits (.upload b.uploads)) (b.submitting.uploading piece)
  | created (b sourcePath title piece) : ImportSegment .submitted
    (some (.importPiece sourcePath title, .imported (.ok piece))) b (.waits (.upload b.uploads))
      ((b.creating sourcePath title piece).uploading piece)
  | importFailed (b sourcePath title error) : ImportSegment .submitted
    (some (.importPiece sourcePath title, .imported (.error error))) b (.ends (.ok ()))
      (b.submitFailed error)
  | ended (b n reply) : ImportSegment .submitted (some (.upload n, reply)) b (.ends (.ok ()))
    (b.ending n)
  | notCancelled (b) : ImportSegment .cancelled none b (.ends (.ok ())) b
  | cancelling (b n) : b.uploadSubscription = some n → b.state.isSubmitting = true →
    ImportSegment .cancelled none b (.waits (.cancel n)) (b.silenced n)
  | nothingToComplete (b n reply) : b.uploadCompleter = none →
    ImportSegment .cancelled (some (.cancel n, reply)) b (.ends (.ok ())) b.cancelled
  | alreadyCompleted (b n m reply) : b.uploadCompleter = some m → m ∈ b.completed →
    ImportSegment .cancelled (some (.cancel n, reply)) b (.ends (.error .alreadyCompleted)) b.cancelled
  | cancelled (b n m reply) : b.uploadCompleter = some m → m ∉ b.completed →
    ImportSegment .cancelled (some (.cancel n, reply)) b (.ends (.ok ()))
      { b.cancelled.complete m with uploadCompleter := none }
  | progress (b n progress) : ImportSegment (.uploadProgress n progress) none b (.ends (.ok ()))
    (b.onProgress n progress)
  | error (b n error) : ImportSegment (.uploadError n error) none b (.ends (.ok ()))
    (b.onError n error)
  | notListening (b n ran) : b.pieceOf n = none →
    ImportSegment (.uploadDone n ran) none b (.ends (.ok ())) b
  | done (b n piece ran) : b.pieceOf n = some piece →
    ImportSegment (.uploadDone n ran) none b (.ends (.ok ())) (b.onDone n piece ran)
  | mismatch (b e) (point : ImportAwait) (reply) : (∀ b', point.accepts b' reply = false) →
    ImportSegment e (some (point, reply)) b (.ends (.error .mismatch)) b

theorem follows_onPickRequested (b : ImportPieceBloc) :
    ImportEvent.onPickRequested.FollowsOn (ImportSegment .pickRequested) none b b := by
  refine ⟨.picking b, fun b reply => ?_⟩
  cases reply with
  | picked file =>
    cases file with
    | none => exact .noPick b
    | some file =>
      refine ⟨.picked b file.1 file.2, fun b reply => ?_⟩
      cases reply with
      | opened result =>
        cases result with
        | ok pages => exact .named b _ _ pages
        | error error => exact .rejected b _ _ error
      | _ => exact .mismatch b _ _ _ fun _ => rfl
  | _ => exact .mismatch b _ _ _ fun _ => rfl

theorem follows_onSubmitted (b : ImportPieceBloc) :
    ImportEvent.onSubmitted.FollowsOn (ImportSegment .submitted) none b b := by
  unfold ImportEvent.onSubmitted
  rw [followsOn_get_bind]
  cases hsource : b.state.sourcePath with
  | none => exact .notSubmitted b
  | some sourcePath =>
    dsimp only
    split_ifs with hsubmit
    · exact .notSubmitted b
    have hcan : b.state.canSubmit = true := by simpa using hsubmit
    rw [followsOn_modify_bind]
    cases hcreated : b.createdPiece with
    | some piece =>
      exact ⟨.resubmitting b sourcePath piece hsource hcan hcreated, fun b' reply => .ended b' _ reply⟩
    | none =>
      refine ⟨.importing b sourcePath hsource hcan hcreated, fun b' reply => ?_⟩
      cases reply with
      | imported result =>
        cases result with
        | ok piece => exact ⟨.created b' _ _ piece, fun b' reply => .ended b' _ reply⟩
        | error error => exact .importFailed b' _ _ error
      | _ => exact .mismatch b' _ _ _ fun _ => rfl

theorem follows_onCancelled (b : ImportPieceBloc) :
    ImportEvent.onCancelled.FollowsOn (ImportSegment .cancelled) none b b := by
  unfold ImportEvent.onCancelled
  rw [followsOn_get_bind]
  cases hsubscription : b.uploadSubscription with
  | none => exact .notCancelled b
  | some n =>
    dsimp only
    split_ifs with hsubmitting
    · exact .notCancelled b
    rw [followsOn_modify_bind, suspend_bind, followsOn_await]
    refine ⟨.cancelling b n hsubscription (by simpa using hsubmitting), fun b reply => ?_⟩
    rw [followsOn_modify_bind, followsOn_get_bind]
    cases hcompleter : b.cancelled.uploadCompleter with
    | none => exact .nothingToComplete b n reply hcompleter
    | some m =>
      dsimp only
      split_ifs with hcompleted
      · exact .alreadyCompleted b n m reply hcompleter hcompleted
      · exact .cancelled b n m reply hcompleter hcompleted

/-- Every handler goes through its segments. -/
theorem follows_importEvent (e : ImportEvent) (b : ImportPieceBloc) :
    e.program.FollowsOn (ImportSegment e) none b b := by
  cases e with
  | pickRequested => exact follows_onPickRequested b
  | titleChanged title => exact .retitled b title
  | submitted => exact follows_onSubmitted b
  | cancelled => exact follows_onCancelled b
  | uploadProgress n progress => exact .progress b n progress
  | uploadError n error => exact .error b n error
  | uploadDone n ran =>
    unfold ImportEvent.program
    rw [followsOn_get_bind]
    cases hpiece : b.pieceOf n with
    | none => exact .notListening b n ran hpiece
    | some piece => exact .done b n piece ran hpiece

end Duet
