import Duet.Lib.Assoc
import Duet.Lib.Async

/-!
# `AudioPlaybackCubit`

One cubit plays the audio notes of a screen. `play` and `stop` unhook the progress of what has been
playing before they await the player; `play` hooks up to the new progress after it. The calls
overlap at their awaits, and the progress of a note that has ended calls `stop`.

## Main definitions

* `AudioPlaybackCubit.play`, `AudioPlaybackCubit.stop` — the calls.
* `AudioPlayback.step` — a call is made or goes on, or progress arrives.
* `PlaybackSegment` — what a call does from one await to the next.
-/

namespace Duet

open Lib Async

/-- How far the playback of a recording is, in microseconds. -/
structure PlaybackProgress where
  position : Int
  duration : Int
  deriving DecidableEq, Repr

/-- The recording has been played to its end. -/
def PlaybackProgress.ended (progress : PlaybackProgress) : Bool :=
  progress.duration > 0 && progress.position ≥ progress.duration

inductive AudioPlaybackState where
  | idle
  | playing (noteId : String) (progress : Option PlaybackProgress)
  | error (error : String)
  deriving DecidableEq, Repr

/-- The state, the subscription to the progress that is held, and all that are live, each with the
note under which it emits; and, for what a run is to say, the calls whose start has succeeded with
their notes, and the notes under which progress has been emitted, each with the one started last. -/
structure AudioPlaybackCubit where
  state : AudioPlaybackState
  progressSubscription : Option Nat
  subscriptions : List (Nat × String)
  listens : Nat
  started : List (Nat × String)
  emitted : List (String × Option String)
  deriving DecidableEq, Repr

inductive PlaybackCommand where
  | play (noteId path : String)
  | stop
  deriving DecidableEq, Repr

/-- A call, numbered in the order in which the calls are made. -/
structure PlaybackCall where
  id : Nat
  command : PlaybackCommand
  deriving DecidableEq, Repr

/-- What a call awaits: the native player, or the service. -/
inductive PlaybackAwait where
  | setFilePath
  | startPlay
  | played (result : Except String Unit)
  | stopPlay
  deriving DecidableEq

/-- What comes back from the native player. -/
abbrev PlaybackReply := Except String Unit

abbrev PlaybackProgram (α : Type) := Async PlaybackAwait PlaybackReply AudioPlaybackCubit String α

namespace AudioPlaybackCubit

def initial : AudioPlaybackCubit := ⟨.idle, none, [], 0, [], []⟩

/-- The note whose playback has been started last. -/
def startedLast (s : AudioPlaybackCubit) : Option String := s.started.getLast?.map Prod.snd

def emit (s : AudioPlaybackCubit) (state : AudioPlaybackState) : AudioPlaybackCubit :=
  { s with state }

/-- `_teardown`. -/
def teardown (s : AudioPlaybackCubit) : AudioPlaybackCubit :=
  { s with
    progressSubscription := none
    subscriptions := s.subscriptions.filter fun live => some live.1 ≠ s.progressSubscription }

/-- Playback has started. -/
def recordStart (s : AudioPlaybackCubit) (id : Nat) (noteId : String) : AudioPlaybackCubit :=
  { s with started := s.started ++ [(id, noteId)] }

/-- The start has succeeded: the note is shown as playing, and its progress is listened to. -/
def listen (s : AudioPlaybackCubit) (noteId : String) : AudioPlaybackCubit :=
  { s.emit (.playing noteId none) with
    progressSubscription := some s.listens
    subscriptions := s.subscriptions ++ [(s.listens, noteId)]
    listens := s.listens + 1 }

/-- What a listener does with progress, but for the call of `stop`. -/
def onProgress (s : AudioPlaybackCubit) (noteId : String) (progress : PlaybackProgress) :
    AudioPlaybackCubit :=
  { s.emit (.playing noteId (some progress)) with
    emitted := s.emitted ++ [(noteId, s.startedLast)] }

/-- `JustAudioPlayerService.play`. -/
def playFile (id : Nat) (noteId path : String) : PlaybackProgram (Except String Unit) := do
  let loaded ← suspend .setFilePath
  match loaded with
  | .error error =>
    done (.error s!"AudioPlaybackException: Failed to load audio at {path}: {error}")
  | .ok _ => do
    let played ← suspend .startPlay
    match played with
    | .error error =>
      done (.error s!"AudioPlaybackException: Failed to start playback: {error}")
    | .ok _ => do
      modify fun s => s.recordStart id noteId
      done (.ok ())

def play (id : Nat) (noteId path : String) : PlaybackProgram Unit := do
  modify teardown
  let result ← playFile id noteId path
  let _ ← suspend (.played result)
  match result with
  | .ok _ => modify fun s => s.listen noteId
  | .error error => modify fun s => s.emit (.error error)

/-- What stopping the player returns is not looked at. -/
def stop : PlaybackProgram Unit := do
  modify teardown
  let _ ← suspend .stopPlay
  modify fun s => s.emit .idle

def perform (call : PlaybackCall) : PlaybackProgram Unit :=
  match call.command with
  | .play noteId path => play call.id noteId path
  | .stop => stop

end AudioPlaybackCubit

/-! ## Runs -/

/-- The cubit, and the calls that run. -/
abbrev AudioPlayback :=
  Lib.Isolate PlaybackCall PlaybackAwait PlaybackReply AudioPlaybackCubit String Unit

inductive PlaybackEvent where
  | call (command : PlaybackCommand)
  | resume (i : Nat) (reply : PlaybackReply)
  | progress (subscription : Nat) (progress : PlaybackProgress)
  deriving DecidableEq

namespace AudioPlayback

/-- A call is made. -/
def make (s : AudioPlayback) (command : PlaybackCommand) : Option AudioPlayback :=
  Lib.Isolate.step AudioPlaybackCubit.perform id s (.call ⟨s.called.length, command⟩)

/-- One event. A subscription that has been cancelled gets no progress. -/
def step (s : AudioPlayback) : PlaybackEvent → Option AudioPlayback
  | .call command => make s command
  | .resume i reply => Lib.Isolate.step AudioPlaybackCubit.perform id s (.resume i reply)
  | .progress subscription progress =>
    (Assoc.get s.state.subscriptions subscription).bind fun noteId =>
      let emitting := { s with state := s.state.onProgress noteId progress }
      if progress.ended then make emitting .stop else some emitting

/-- Nothing has been played. -/
def start : AudioPlayback := Lib.Isolate.start .initial

end AudioPlayback

/-! ## The segments of the calls -/

open AudioPlaybackCubit in
/-- What a call does from one await to the next. -/
inductive PlaybackSegment (call : PlaybackCall) : Option (PlaybackAwait × PlaybackReply) →
    AudioPlaybackCubit → Stop PlaybackAwait String Unit → AudioPlaybackCubit → Prop where
  | plays (s noteId path) : call.command = .play noteId path →
    PlaybackSegment call none s (.waits .setFilePath) s.teardown
  | stops (s) : call.command = .stop → PlaybackSegment call none s (.waits .stopPlay) s.teardown
  | loaded (s reply) : PlaybackSegment call (some (.setFilePath, reply)) s (.waits .startPlay) s
  | fails (s point reply error) : point = .setFilePath ∨ point = .startPlay →
    PlaybackSegment call (some (point, reply)) s (.waits (.played (.error error))) s
  | starts (s value noteId path) : call.command = .play noteId path →
    PlaybackSegment call (some (.startPlay, .ok value)) s (.waits (.played (.ok ())))
      (s.recordStart call.id noteId)
  | listens (s value reply noteId path) : call.command = .play noteId path →
    PlaybackSegment call (some (.played (.ok value), reply)) s (.ends (.ok ())) (s.listen noteId)
  | failed (s error reply) :
    PlaybackSegment call (some (.played (.error error), reply)) s (.ends (.ok ()))
      (s.emit (.error error))
  | stopped (s reply) : call.command = .stop →
    PlaybackSegment call (some (.stopPlay, reply)) s (.ends (.ok ())) (s.emit .idle)

theorem follows_perform (call : PlaybackCall) (s : AudioPlaybackCubit) :
    (AudioPlaybackCubit.perform call).FollowsOn (PlaybackSegment call) none s s := by
  obtain ⟨id, command⟩ := call
  cases command with
  | play noteId path =>
    refine ⟨.plays s noteId path rfl, fun t loaded => ?_⟩
    cases loaded with
    | error error =>
      exact ⟨.fails t .setFilePath _ _ (.inl rfl), fun u reply => .failed u _ reply⟩
    | ok value =>
      refine ⟨.loaded t _, fun u played => ?_⟩
      cases played with
      | error error =>
        exact ⟨.fails u .startPlay _ _ (.inr rfl), fun v reply => .failed v _ reply⟩
      | ok value =>
        exact ⟨.starts u value noteId path rfl, fun v reply => .listens v () reply noteId path rfl⟩
  | stop => exact ⟨.stops s rfl, fun t reply => .stopped t reply rfl⟩

end Duet
