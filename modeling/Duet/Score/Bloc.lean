import Duet.Lib.Async
import Duet.Lib.Transition
import Duet.Score.NewInk

/-!
# `ScoreBloc`

The handlers of the score view that open pieces, draw, erase and undo. Each of them runs up to an
`await` and goes on when what it awaits comes back; in between the others run on the same state.

A subscription to the annotations of a piece adds an event to the bloc for each snapshot, which is
handled later. What the viewer has asked of the repository so far, and how it came back, is logged.

## Main definitions

* `ScoreSession` — the state of the bloc, its fields, and the log.
* `ScoreEvent`, `ScoreEvent.program` — the events and their handlers.
* `Scores.step` — the handlers that run, and one event.
* `ScoreSegment` — what a handler does from one await to the next.
-/

namespace Duet

open Lib Async

/-! ## The state -/

inductive ScoreStatus where
  | loading | ready | failure
  deriving DecidableEq, Repr

inductive ScoreMode where
  | view | draw | regionSelect
  deriving DecidableEq, Repr

/-- A call of `AnnotationRepository` that changes a stroke. -/
inductive StrokeCall where
  | addStroke (pieceId : String) (stroke : InkStroke)
  | eraseStroke (pieceId strokeId : String)
  deriving DecidableEq, Repr

/-- What has become of the calls so far. -/
inductive StrokeLog where
  | issued (call : StrokeCall)
  | returned (call : StrokeCall) (success : Bool)
  deriving DecidableEq, Repr

/-- The state of the bloc and its fields. A subscription is named by the number of the open that
made it; `active` are those that have not been cancelled, each with its piece, and `added` are the
snapshots that wait to be handled. `opens` are the ids that have been opened, `shown` is the snapshot
that the layers and notes are from, `watermark` what was read when the piece became ready. -/
structure ScoreSession extends ScoreBloc where
  status : ScoreStatus
  pieceId : Option String
  currentRole : PieceRole
  currentPage : Int
  mode : ScoreMode
  undoStack : List InkStroke
  error : Option String
  strokeSeq : Nat
  annotationsSubscription : Option Nat
  active : List (Nat × String)
  added : List PieceAnnotations
  opens : List String
  shown : Option PieceAnnotations
  watermark : Option DateTime
  log : List StrokeLog
  deriving DecidableEq, Repr

/-- What a handler awaits. -/
inductive ScoreAwait where
  | cancel (n : Nat) (pieceId : String)
  | getPiece (n : Nat) (pieceId : String)
  | resolveBasePdf (n : Nat) (piece : Piece)
  | readWatermark (n : Nat) (piece : Piece)
  | stroke (call : StrokeCall)
  deriving DecidableEq, Repr

/-- What comes back: a path only from a cache, and no watermarks from a stream that fails. -/
inductive ScoreReply where
  | cancelled
  | piece (result : Except String Piece)
  | basePdfPath (result : Except String (Option String))
  | reads (result : Option (Assoc String DateTime))
  | stroke (result : Except String Unit)

/-- The bloc gets what it has asked for. -/
def ScoreAwait.accepts : ScoreAwait → ScoreReply → Bool
  | cancel _ _, .cancelled => true
  | getPiece _ pieceId, .piece (.ok piece) => piece.id == pieceId
  | getPiece _ _, .piece (.error _) => true
  | resolveBasePdf _ _, .basePdfPath _ => true
  | readWatermark _ _, .reads _ => true
  | stroke _, .stroke _ => true
  | _, _ => false

/-- Why a handler ends with an error: `sublist` gets a negative end. -/
inductive ScoreFailure where
  | rangeError
  | mismatch
  deriving DecidableEq, Repr

abbrev ScoreProgram (α : Type) := Async ScoreAwait ScoreReply ScoreSession ScoreFailure α

namespace ScoreSession

/-- `ScoreState.initial`. -/
def initial (currentUserId : String) : ScoreSession where
  piece := none
  state := ⟨currentUserId, [], none⟩
  layers := []
  notes := []
  status := .loading
  pieceId := none
  currentRole := .collaborator
  currentPage := 0
  mode := .view
  undoStack := []
  error := none
  strokeSeq := 0
  annotationsSubscription := none
  active := []
  added := []
  opens := []
  shown := none
  watermark := none
  log := []

/-! ## Opening -/

/-- The open begins: the subscription that is known is cancelled. -/
def opening (s : ScoreSession) (pieceId : String) : ScoreSession :=
  { s with
    opens := s.opens ++ [pieceId]
    active := s.active.filter fun subscription => s.annotationsSubscription ≠ some subscription.1 }

def loading (s : ScoreSession) (pieceId : String) : ScoreSession :=
  { s with status := .loading, pieceId := some pieceId, error := none }

def failed (s : ScoreSession) (error : String) : ScoreSession :=
  { s with status := .failure, error := some error }

/-- The piece is ready, and its annotations are listened to. `copyWith` keeps the watermark of a
piece opened before where there is none, and the layers, the notes and the undo stack. -/
def opened (s : ScoreSession) (n : Nat) (piece : Piece) (lastOpenedAt : Option DateTime) :
    ScoreSession :=
  { s with
    status := .ready
    piece := some piece
    currentRole := if piece.ownerId = s.state.currentUserId then .owner else .collaborator
    currentPage := 0
    state := { s.state with lastOpenedAt := lastOpenedAt.or s.state.lastOpenedAt }
    annotationsSubscription := some n
    active := s.active ++ [(n, piece.id)]
    watermark := lastOpenedAt }

/-! ## Annotations -/

/-- `_onAnnotationsUpdated`. -/
def updated (s : ScoreSession) (annotations : PieceAnnotations) : ScoreSession :=
  match s.piece with
  | none => s
  | some _ => { s with
      toScoreBloc := s.toScoreBloc.onAnnotationsUpdated annotations
      shown := some annotations }

/-! ## Strokes -/

/-- `ownLayer`, its strokes. -/
def ownStrokes (s : ScoreSession) : List InkStroke :=
  match s.layers.find? (·.isOwn) with
  | some layer => layer.strokes
  | none => []

/-- A stroke is pushed, and sent to the repository. -/
def pushed (s : ScoreSession) (pieceId : String) (stroke : InkStroke) : ScoreSession :=
  { s with
    strokeSeq := s.strokeSeq + 1
    undoStack := s.undoStack ++ [stroke]
    log := s.log ++ [.issued (.addStroke pieceId stroke)] }

/-- The stack without the strokes of an id. -/
def dropped (s : ScoreSession) (strokeId : String) : ScoreSession :=
  { s with undoStack := s.undoStack.filter fun stroke => stroke.id ≠ strokeId }

def issue (s : ScoreSession) (call : StrokeCall) : ScoreSession :=
  { s with log := s.log ++ [.issued call] }

def receive (s : ScoreSession) (call : StrokeCall) (success : Bool) : ScoreSession :=
  { s with log := s.log ++ [.returned call success] }

def failing (s : ScoreSession) (error : String) : ScoreSession := { s with error := some error }

end ScoreSession

/-- `_nextStrokeId`. -/
def strokeId (now : DateTime) (seq : Nat) : String := s!"stroke_{now.micros}_{seq}"

/-- The color of a participant's ink; the index is -1 when the viewer takes no part. -/
def ownColorId (piece : Piece) (uid : String) : String :=
  match piece.participantIds.findIdx? fun participantId => participantId == uid with
  | some index => inkColorIdFor index
  | none => inkColorIdFor (kInkPaletteSize - 1)

/-! ## The handlers -/

/-- The events of the bloc. A snapshot is added by a subscription, `n` is that of the subscription;
`now` is the clock when the event is handled. -/
inductive ScoreEvent where
  | scoreOpened (pieceId : String)
  | snapshot (n : Nat) (annotations : PieceAnnotations)
  | annotationsUpdated
  | modeChanged (mode : ScoreMode)
  | strokeCompleted (now : DateTime) (points : List InkPoint)
  | strokeErased (strokeId : String)
  | undoRequested
  deriving DecidableEq, Repr

namespace ScoreEvent

/-- Await a call of the repository. -/
def await (call : StrokeCall) (k : Except String Unit → ScoreProgram Unit) : ScoreProgram Unit := do
  match ← suspend (.stroke call) with
  | .stroke result =>
    modify fun s => s.receive call result.isOk
    k result
  | _ => fail .mismatch

/-- `_onOpened`. -/
def onOpened (pieceId : String) : ScoreProgram Unit := do
  let s ← get
  let n := s.opens.length
  modify fun s => s.opening pieceId
  let _ ← suspend (.cancel n pieceId)
  modify fun s => s.loading pieceId
  match ← suspend (.getPiece n pieceId) with
  | .piece (.error error) => modify fun s => s.failed error
  | .piece (.ok piece) =>
    match ← suspend (.resolveBasePdf n piece) with
    | .basePdfPath (.error error) => modify fun s => s.failed error
    | .basePdfPath (.ok path) =>
      let piece := { piece with basePdfPath := path.getD piece.basePdfPath }
      match ← suspend (.readWatermark n piece) with
      | .reads reads => modify fun s => s.opened n piece (reads.bind fun map => map.get piece.id)
      | _ => fail .mismatch
    | _ => fail .mismatch
  | _ => fail .mismatch

/-- `_onStrokeCompleted`. -/
def onStrokeCompleted (now : DateTime) (points : List InkPoint) : ScoreProgram Unit := do
  let s ← get
  match s.piece with
  | none => done ()
  | some piece =>
    if s.mode ≠ .draw ∨ points.length < 2 then done ()
    else do
      let stroke : InkStroke := ⟨strokeId now s.strokeSeq, s.state.currentUserId, s.currentPage,
        ownColorId piece s.state.currentUserId, points⟩
      modify fun s => s.pushed piece.id stroke
      await (.addStroke piece.id stroke) fun
        | .ok _ => done ()
        | .error error => modify fun s => (s.failing error).dropped stroke.id

/-- `_onStrokeErased`. -/
def onStrokeErased (strokeId : String) : ScoreProgram Unit := do
  let s ← get
  match s.piece with
  | none => done ()
  | some piece =>
    if !s.ownStrokes.any fun stroke => stroke.id == strokeId then done ()
    else do
      modify fun s => s.issue (.eraseStroke piece.id strokeId)
      await (.eraseStroke piece.id strokeId) fun
        | .ok _ => modify fun s => s.dropped strokeId
        | .error error => modify fun s => s.failing error

/-- `_onUndoRequested`: the stroke is the last one when it is asked for, and what is dropped the
last one when it has been erased. -/
def onUndoRequested : ScoreProgram Unit := do
  let s ← get
  match s.piece, s.undoStack.getLast? with
  | some piece, some last =>
    modify fun s => s.issue (.eraseStroke piece.id last.id)
    await (.eraseStroke piece.id last.id) fun
      | .ok _ => do
        let s ← get
        if s.undoStack = [] then fail .rangeError
        else modify fun s => { s with undoStack := s.undoStack.dropLast }
      | .error error => modify fun s => s.failing error
  | _, _ => done ()

def program : ScoreEvent → ScoreProgram Unit
  | scoreOpened pieceId => onOpened pieceId
  | snapshot _ annotations => modify fun s => { s with added := s.added ++ [annotations] }
  | annotationsUpdated => do
    let s ← get
    match s.added with
    | [] => done ()
    | annotations :: added => modify fun s => { s.updated annotations with added := added }
  | modeChanged mode => modify fun s => { s with mode := mode }
  | strokeCompleted now points => onStrokeCompleted now points
  | strokeErased strokeId => onStrokeErased strokeId
  | undoRequested => onUndoRequested

end ScoreEvent

/-! ## Runs -/

/-- The bloc, and the handlers that run. -/
abbrev Scores := Lib.Isolate ScoreEvent ScoreAwait ScoreReply ScoreSession ScoreFailure Unit

abbrev ScoreStep := Lib.IsolateEvent ScoreEvent ScoreReply

namespace Scores

/-- No handler is pending. -/
def Quiescent (s : Scores) : Prop := s.running = []

/-- What can happen: snapshots come from the subscriptions that are active, and replies are to what
has been asked. -/
def enabled (s : Scores) : ScoreStep → Bool
  | .call (.snapshot n annotations) => s.state.active.contains (n, annotations.pieceId)
  | .call _ => true
  | .resume i reply =>
    ((s.running[i]?).bind fun task => task.rest.point?).any fun point => point.accepts reply
  | .kill => false

/-- One event of the bloc. -/
def step (s : Scores) (e : ScoreStep) : Option Scores :=
  if s.enabled e then Lib.Isolate.step ScoreEvent.program id s e else none

end Scores

/-! ## The segments of the handlers -/

/-- What a handler does from where it begins or is resumed, with what comes back, to where it
stops. -/
inductive ScoreSegment : ScoreEvent → Option (ScoreAwait × ScoreReply) → ScoreSession →
    Stop ScoreAwait ScoreFailure Unit → ScoreSession → Prop where
  | opening (s pieceId) : ScoreSegment (.scoreOpened pieceId) none s
    (.waits (.cancel s.opens.length pieceId)) (s.opening pieceId)
  | loading (s n pieceId reply) : ScoreSegment (.scoreOpened pieceId)
    (some (.cancel n pieceId, reply)) s (.waits (.getPiece n pieceId)) (s.loading pieceId)
  | found (s n pieceId piece) : ScoreSegment (.scoreOpened pieceId)
    (some (.getPiece n pieceId, .piece (.ok piece))) s (.waits (.resolveBasePdf n piece)) s
  | missing (s n pieceId error) : ScoreSegment (.scoreOpened pieceId)
    (some (.getPiece n pieceId, .piece (.error error))) s (.ends (.ok ())) (s.failed error)
  | resolved (s n pieceId) (piece : Piece) (path : Option String) :
    ScoreSegment (.scoreOpened pieceId) (some (.resolveBasePdf n piece, .basePdfPath (.ok path))) s
      (.waits (.readWatermark n { piece with basePdfPath := path.getD piece.basePdfPath })) s
  | unresolved (s n pieceId piece error) : ScoreSegment (.scoreOpened pieceId)
    (some (.resolveBasePdf n piece, .basePdfPath (.error error))) s (.ends (.ok ())) (s.failed error)
  | opened (s n pieceId) (piece : Piece) (reads : Option (Assoc String DateTime)) :
    ScoreSegment (.scoreOpened pieceId) (some (.readWatermark n piece, .reads reads)) s
      (.ends (.ok ())) (s.opened n piece (reads.bind fun map => map.get piece.id))
  | snapshot (s n annotations) : ScoreSegment (.snapshot n annotations) none s (.ends (.ok ()))
    { s with added := s.added ++ [annotations] }
  | nothingAdded (s) : s.added = [] → ScoreSegment .annotationsUpdated none s (.ends (.ok ())) s
  | updated (s annotations added) : s.added = annotations :: added →
    ScoreSegment .annotationsUpdated none s (.ends (.ok ()))
      { s.updated annotations with added := added }
  | modeChanged (s mode) : ScoreSegment (.modeChanged mode) none s (.ends (.ok ()))
    { s with mode := mode }
  | ignored (s e) : e ≠ .annotationsUpdated → ScoreSegment e none s (.ends (.ok ())) s
  | pushed (s now points) (piece : Piece) (stroke : InkStroke) : s.piece = some piece →
    stroke.id = strokeId now s.strokeSeq → ScoreSegment (.strokeCompleted now points) none s
      (.waits (.stroke (.addStroke piece.id stroke))) (s.pushed piece.id stroke)
  | stored (s now points pieceId stroke) : ScoreSegment (.strokeCompleted now points)
    (some (.stroke (.addStroke pieceId stroke), .stroke (.ok ()))) s (.ends (.ok ()))
      (s.receive (.addStroke pieceId stroke) true)
  | rejected (s now points pieceId) (stroke : InkStroke) (error) :
    ScoreSegment (.strokeCompleted now points)
      (some (.stroke (.addStroke pieceId stroke), .stroke (.error error))) s (.ends (.ok ()))
        (((s.receive (.addStroke pieceId stroke) false).failing error).dropped stroke.id)
  | erasing (s strokeId) (piece : Piece) : s.piece = some piece →
    ScoreSegment (.strokeErased strokeId) none s (.waits (.stroke (.eraseStroke piece.id strokeId)))
      (s.issue (.eraseStroke piece.id strokeId))
  | erased (s strokeId pieceId) : ScoreSegment (.strokeErased strokeId)
    (some (.stroke (.eraseStroke pieceId strokeId), .stroke (.ok ()))) s (.ends (.ok ()))
      ((s.receive (.eraseStroke pieceId strokeId) true).dropped strokeId)
  | undoing (s) (piece : Piece) (last : InkStroke) : s.piece = some piece →
    s.undoStack.getLast? = some last → ScoreSegment .undoRequested none s
      (.waits (.stroke (.eraseStroke piece.id last.id))) (s.issue (.eraseStroke piece.id last.id))
  | undone (s pieceId strokeId) : s.undoStack ≠ [] → ScoreSegment .undoRequested
    (some (.stroke (.eraseStroke pieceId strokeId), .stroke (.ok ()))) s (.ends (.ok ()))
      { s.receive (.eraseStroke pieceId strokeId) true with undoStack := s.undoStack.dropLast }
  | nothingLeft (s pieceId strokeId) : s.undoStack = [] → ScoreSegment .undoRequested
    (some (.stroke (.eraseStroke pieceId strokeId), .stroke (.ok ()))) s
      (.ends (.error .rangeError)) (s.receive (.eraseStroke pieceId strokeId) true)
  | kept (s e pieceId strokeId error) : ScoreSegment e
    (some (.stroke (.eraseStroke pieceId strokeId), .stroke (.error error))) s (.ends (.ok ()))
      ((s.receive (.eraseStroke pieceId strokeId) false).failing error)
  | mismatch (s e) (point : ScoreAwait) (reply) : point.accepts reply = false →
    ScoreSegment e (some (point, reply)) s (.ends (.error .mismatch)) s

theorem follows_onOpened (pieceId : String) (s : ScoreSession) :
    (ScoreEvent.onOpened pieceId).FollowsOn (ScoreSegment (.scoreOpened pieceId)) none s s := by
  refine ⟨.opening s pieceId, fun s reply => ⟨.loading s _ _ reply, fun s reply => ?_⟩⟩
  cases reply with
  | piece result =>
    cases result with
    | error error => exact .missing s _ _ error
    | ok piece =>
      refine ⟨.found s _ _ piece, fun s reply => ?_⟩
      cases reply with
      | basePdfPath result =>
        cases result with
        | error error => exact .unresolved s _ _ _ error
        | ok path =>
          refine ⟨.resolved s _ _ piece path, fun s reply => ?_⟩
          cases reply with
          | reads reads => exact .opened s _ _ _ reads
          | _ => exact .mismatch s _ _ _ rfl
      | _ => exact .mismatch s _ _ _ rfl
  | _ => exact .mismatch s _ _ _ rfl

theorem follows_onStrokeCompleted (now : DateTime) (points : List InkPoint) (s : ScoreSession) :
    (ScoreEvent.onStrokeCompleted now points).FollowsOn
      (ScoreSegment (.strokeCompleted now points)) none s s := by
  unfold ScoreEvent.onStrokeCompleted
  rw [followsOn_get_bind]
  cases hpiece : s.piece with
  | none => exact .ignored s _ nofun
  | some piece =>
    dsimp only
    split_ifs
    · exact .ignored s _ nofun
    refine ⟨.pushed s now points piece _ hpiece rfl, fun s reply => ?_⟩
    cases reply with
    | stroke result =>
      cases result with
      | ok _ => exact .stored s now points _ _
      | error error => exact .rejected s now points _ _ error
    | _ => exact .mismatch s _ _ _ rfl

theorem follows_onStrokeErased (strokeId : String) (s : ScoreSession) :
    (ScoreEvent.onStrokeErased strokeId).FollowsOn (ScoreSegment (.strokeErased strokeId)) none
      s s := by
  unfold ScoreEvent.onStrokeErased
  rw [followsOn_get_bind]
  cases hpiece : s.piece with
  | none => exact .ignored s _ nofun
  | some piece =>
    dsimp only
    split_ifs
    · exact .ignored s _ nofun
    refine ⟨.erasing s strokeId piece hpiece, fun s reply => ?_⟩
    cases reply with
    | stroke result =>
      cases result with
      | ok _ => exact .erased s strokeId _
      | error error => exact .kept s _ _ _ error
    | _ => exact .mismatch s _ _ _ rfl

theorem follows_onUndoRequested (s : ScoreSession) :
    ScoreEvent.onUndoRequested.FollowsOn (ScoreSegment .undoRequested) none s s := by
  unfold ScoreEvent.onUndoRequested
  rw [followsOn_get_bind]
  split
  · next piece last hpiece hlast =>
    refine ⟨.undoing s piece last hpiece hlast, fun s reply => ?_⟩
    cases reply with
    | stroke result =>
      cases result with
      | error error => exact .kept s _ _ _ error
      | ok _ =>
        change (if (s.receive _ _).undoStack = [] then _ else _ : ScoreProgram Unit).FollowsOn
          _ _ _ _
        split_ifs with hempty
        · exact .nothingLeft s _ _ hempty
        · exact .undone s _ _ hempty
    | _ => exact .mismatch s _ _ _ rfl
  · exact .ignored s _ nofun

/-- Every handler goes through its segments. -/
theorem follows_program (e : ScoreEvent) (s : ScoreSession) :
    e.program.FollowsOn (ScoreSegment e) none s s := by
  cases e with
  | scoreOpened pieceId => exact follows_onOpened pieceId s
  | snapshot n annotations => exact .snapshot s n annotations
  | annotationsUpdated =>
    unfold ScoreEvent.program
    rw [followsOn_get_bind]
    cases hadded : s.added with
    | nil => exact .nothingAdded s hadded
    | cons annotations added => exact .updated s annotations added hadded
  | modeChanged mode => exact .modeChanged s mode
  | strokeCompleted now points => exact follows_onStrokeCompleted now points s
  | strokeErased strokeId => exact follows_onStrokeErased strokeId s
  | undoRequested => exact follows_onUndoRequested s

namespace Scores

/-- A step of the bloc is a segment of a handler, resumed with what it accepts. -/
theorem step_iff_segment {s t : Scores} {event : ScoreStep} (hobeys : s.ObeysOn ScoreSegment)
    (hstep : step s event = some t) :
    t.ObeysOn ScoreSegment ∧ s.enabled event = true ∧ Lib.Isolate.SegmentOn ScoreSegment id s t event := by
  unfold step at hstep
  split_ifs at hstep with henabled
  obtain ⟨hobeys', hseg⟩ := Lib.Isolate.obeysOn_step follows_program hobeys hstep
  exact ⟨hobeys', henabled, hseg⟩

/-- The reply that resumes a handler is one that it accepts. -/
theorem accepts_of_enabled {s : Scores} {i : Nat} {reply : ScoreReply} {c : ScoreEvent}
    {point : ScoreAwait} {k : ScoreReply → ScoreProgram Unit}
    (hrunning : s.running[i]? = some ⟨c, .await point k⟩)
    (henabled : s.enabled (.resume i reply) = true) : point.accepts reply = true := by
  simpa [enabled, hrunning] using henabled

end Scores

end Duet
