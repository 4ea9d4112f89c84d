import Duet.Lib.Assoc
import Duet.Lib.Async

/-!
# `RecordAudioCubit` and `RecordAudioRecorderService`

The cubit drives a recording over a service, which drives the native recorder. Each has a timer that
caps the recording; the service ticks while it records, and the cubit shows the ticks. The calls
overlap at their awaits, and the native recorder answers when it likes. A ticker that ticks hands
its ticks to the subscriptions there are, each of which gets them later.

## Main definitions

* `RecordAudio.start`, `stop`, `cancel`, `close` — the calls of the cubit.
* `RecordAudioCalls.step` — a call is made or goes on, a timer fires, or a tick arrives.
* `RecordSegment` — what a call does from one await to the next.
-/

namespace Duet

open Lib Async

inductive RecordAudioState where
  | idle
  | recording (elapsed : Int)
  | reviewing (path : String) (elapsed : Int)
  | error (error : String)
  deriving DecidableEq, Repr

/-- `status == RecordAudioStatus.recording`. -/
def RecordAudioState.isRecording : RecordAudioState → Bool
  | recording _ => true
  | _ => false

/-- `state.elapsed`. -/
def RecordAudioState.elapsed : RecordAudioState → Int
  | recording elapsed | reviewing _ elapsed => elapsed
  | _ => 0

/-- The cubit's own state: what it shows, and the subscription and the timer that it holds. -/
structure RecordAudioCubit where
  state : RecordAudioState
  elapsedSubscription : Option Nat
  capTimer : Option Nat
  isClosed : Bool
  deriving DecidableEq, Repr

/-- The service's own state: its flag, and the timers that it holds. -/
structure RecordAudioRecorderService where
  recording : Bool
  ticker : Option Nat
  capTimer : Option Nat
  deriving DecidableEq, Repr

/-- The cubit, the service, whether the native recorder records, the timers and subscriptions that
are live, the latter with the ticks that they are still to get; and, for what a run is to say,
whether a cancel or a close has been called that no start has followed, and whether a close has
been. -/
structure RecordAudio where
  cubit : RecordAudioCubit
  service : RecordAudioRecorderService
  hot : Bool
  tickers : List Nat
  serviceCaps : List Nat
  cubitCaps : List Nat
  subscriptions : List (Nat × List Int)
  nextId : Nat
  abandoned : Bool
  closing : Bool
  deriving DecidableEq, Repr

/-- The calls of the cubit, and the `stop` that the service's timer calls. -/
inductive RecordCall where
  | start (outputPath : String)
  | stop
  | cancel
  | discard
  | close
  | capStop
  deriving DecidableEq, Repr

/-- What a call awaits: the native recorder, or the service. -/
inductive RecordAwait where
  | hasPermission
  | nativeStart (outputPath : String)
  | started (result : Except String Unit)
  | nativeStop
  | stopped (result : Except String String)
  | cancelled
  | closing
  deriving DecidableEq

/-- What comes back: whether the native call has succeeded, whether there is the permission, and the
path of what has been recorded. -/
structure RecorderReply where
  result : Except String Unit
  granted : Bool
  path : Option String
  deriving DecidableEq

abbrev RecordProgram (α : Type) := Async RecordAwait RecorderReply RecordAudio String α

namespace RecordAudio

def initial : RecordAudio :=
  ⟨⟨.idle, none, none, false⟩, ⟨false, none, none⟩, false, [], [], [], [], 0, false, false⟩

/-! ## The service -/

/-- The text of an `AudioRecordException`. -/
def exception (message : String) : String := s!"AudioRecordException: {message}"

/-- The native recorder has started, and the service with it. -/
def startRecording (s : RecordAudio) : RecordAudio :=
  { s with
    service := ⟨true, some s.nextId, some (s.nextId + 1)⟩
    hot := true
    tickers := s.tickers ++ [s.nextId]
    serviceCaps := s.serviceCaps ++ [s.nextId + 1]
    nextId := s.nextId + 2 }

/-- The service stops recording, and the timers that it holds are cancelled. -/
def stopService (s : RecordAudio) : RecordAudio :=
  { s with
    service := ⟨false, none, none⟩
    tickers := s.tickers.filter fun id => some id ≠ s.service.ticker
    serviceCaps := s.serviceCaps.filter fun id => some id ≠ s.service.capTimer }

/-- The native recorder has stopped. -/
def cool (s : RecordAudio) : RecordAudio := { s with hot := false }

/-- `RecordAudioRecorderService.start`. -/
def startService (outputPath : String) : RecordProgram (Except String Unit) := do
  let s ← get
  if s.service.recording then done (.error (exception "A recording is already in progress"))
  else do
    let permission ← suspend .hasPermission
    match permission.result with
    | .error error =>
      done (.error (exception s!"Failed to check microphone permission: {error}"))
    | .ok _ =>
      if !permission.granted then done (.error (exception "Microphone permission denied"))
      else do
        let started ← suspend (.nativeStart outputPath)
        match started.result with
        | .error error => done (.error (exception s!"Failed to start recording: {error}"))
        | .ok _ => do
          modify startRecording
          done (.ok ())

/-- `RecordAudioRecorderService.stop`. -/
def stopRecording : RecordProgram (Except String String) := do
  let s ← get
  if !s.service.recording then done (.error (exception "No active recording to stop"))
  else do
    modify stopService
    let stopped ← suspend .nativeStop
    match stopped.result with
    | .error error => done (.error (exception s!"Failed to stop recording: {error}"))
    | .ok _ => do
      modify cool
      match stopped.path with
      | none =>
        done (.error (exception "The recorder stopped without producing an output file"))
      | some path => done (.ok path)

/-! ## The cubit -/

/-- A state is emitted, unless the cubit is closed. -/
def display (s : RecordAudio) (state : RecordAudioState) : RecordAudio :=
  if s.cubit.isClosed then s else { s with cubit := { s.cubit with state } }

/-- `emit`; it throws once the cubit is closed. -/
def emit (state : RecordAudioState) : RecordProgram Unit := do
  let s ← get
  modify fun s => s.display state
  if s.cubit.isClosed then fail "Bad state: Cannot emit new states after calling close"
  else done ()

/-- The timer that the cubit holds, and its subscription, are cancelled. -/
def hangUp (s : RecordAudio) : RecordAudio :=
  { s with
    cubitCaps := s.cubitCaps.filter fun id => some id ≠ s.cubit.capTimer
    subscriptions := s.subscriptions.filter fun live => some live.1 ≠ s.cubit.elapsedSubscription }

/-- The cubit lets go of its timer and its subscription. -/
def unhook (s : RecordAudio) : RecordAudio :=
  { s.hangUp with cubit := { s.cubit with elapsedSubscription := none, capTimer := none } }

/-- The cubit listens to the ticks, and sets its timer. -/
def hook (s : RecordAudio) : RecordAudio :=
  { s.hangUp with
    cubit := { s.cubit with
      elapsedSubscription := some s.nextId
      capTimer := some (s.nextId + 1) }
    subscriptions := s.hangUp.subscriptions ++ [(s.nextId, [])]
    cubitCaps := s.hangUp.cubitCaps ++ [s.nextId + 1]
    nextId := s.nextId + 2 }

def start (outputPath : String) : RecordProgram Unit := do
  modify fun s => { s with abandoned := false }
  let result ← startService outputPath
  let _ ← suspend (.started result)
  match result with
  | .ok _ => do
    emit (.recording 0)
    modify hook
  | .error error => emit (.error error)

def stop : RecordProgram Unit := do
  let s ← get
  if !s.cubit.state.isRecording then done ()
  else do
    let elapsedAtStop := s.cubit.state.elapsed
    modify unhook
    let result ← stopRecording
    let _ ← suspend (.stopped result)
    match result with
    | .ok path => emit (.reviewing path elapsedAtStop)
    | .error error => emit (.error error)

def discard : RecordProgram Unit := emit .idle

/-- What stopping the service returns is not looked at. -/
def cancel : RecordProgram Unit := do
  let s ← get
  modify fun s => { s with abandoned := true }
  if s.cubit.state.isRecording then do
    modify unhook
    let _ ← stopRecording
    let _ ← suspend .cancelled
    modify fun s => s.display .idle
  else modify fun s => s.display .idle

def close : RecordProgram Unit := do
  modify fun s => { s.hangUp with abandoned := true, closing := true }
  let _ ← suspend .closing
  modify fun s => { s with cubit := { s.cubit with isClosed := true } }

def perform : RecordCall → RecordProgram Unit
  | .start outputPath => start outputPath
  | .stop => stop
  | .cancel => cancel
  | .discard => discard
  | .close => close
  | .capStop => do
    let _ ← stopRecording
    done ()

end RecordAudio

/-! ## Runs -/

/-- The cubit and the service, and the calls that run. -/
abbrev RecordAudioCalls :=
  Lib.Isolate RecordCall RecordAwait RecorderReply RecordAudio String Unit

/-- What can happen: a call of the cubit; one goes on; a timer fires, of the cubit, of the service,
or its ticker; or a tick arrives at a subscription. -/
inductive RecordEvent where
  | call (call : RecordCall)
  | resume (i : Nat) (reply : RecorderReply)
  | cubitCap (timer : Nat)
  | serviceCap (timer : Nat)
  | tick (ticker : Nat) (elapsed : Int)
  | elapsed (subscription : Nat)
  deriving DecidableEq

namespace RecordAudioCalls

def make (s : RecordAudioCalls) (call : RecordCall) : Option RecordAudioCalls :=
  Lib.Isolate.step RecordAudio.perform id s (.call call)

/-- The state changes between the calls. -/
def change (s : RecordAudioCalls) (f : RecordAudio → RecordAudio) : RecordAudioCalls :=
  { s with state := f s.state }

/-- One event. A timer that has been cancelled does not fire, and one that caps fires once. -/
def step (s : RecordAudioCalls) : RecordEvent → Option RecordAudioCalls
  | .call call => if call = .capStop then none else make s call
  | .resume i reply => Lib.Isolate.step RecordAudio.perform id s (.resume i reply)
  | .cubitCap timer =>
    if timer ∈ s.state.cubitCaps then
      make (change s fun u => { u with cubitCaps := u.cubitCaps.erase timer }) .stop
    else none
  | .serviceCap timer =>
    if timer ∈ s.state.serviceCaps then
      make (change s fun u => { u with serviceCaps := u.serviceCaps.erase timer }) .capStop
    else none
  | .tick ticker elapsed =>
    if ticker ∈ s.state.tickers then
      some (change s fun u => { u with
        subscriptions := u.subscriptions.map fun live => (live.1, live.2 ++ [elapsed]) })
    else none
  | .elapsed subscription =>
    match Assoc.get s.state.subscriptions subscription with
    | some (elapsed :: rest) => some (change s fun u =>
        { u with subscriptions := Assoc.set u.subscriptions subscription rest }.display
          (.recording elapsed))
    | _ => none

/-- Nothing has been recorded. -/
def start : RecordAudioCalls := Lib.Isolate.start .initial

end RecordAudioCalls

/-! ## The segments of the calls -/

/-- Where a call goes on to once the service has stopped, or has refused to. -/
inductive AfterStop : RecordCall → Stop RecordAwait String Unit → Prop where
  | stop (result) : AfterStop .stop (.waits (.stopped result))
  | cancel : AfterStop .cancel (.waits .cancelled)
  | capStop : AfterStop .capStop (.ends (.ok ()))

open RecordAudio in
/-- What a call does before it stops the service: a cancel is noted, and the cubit lets go. -/
def RecordCall.beforeStop : RecordCall → RecordAudio → RecordAudio
  | .stop, s => s.unhook
  | .cancel, s => { s with abandoned := true }.unhook
  | _, s => s

/-- The call stops the service. -/
def RecordCall.StopsService (s : RecordAudio) : RecordCall → Prop
  | .stop | .cancel => s.cubit.state.isRecording = true
  | .capStop => True
  | _ => False

open RecordAudio in
/-- What a call does from one await to the next. -/
inductive RecordSegment : RecordCall → Option (RecordAwait × RecorderReply) → RecordAudio →
    Stop RecordAwait String Unit → RecordAudio → Prop where
  | begins (s path next) : RecordSegment (.start path) none s (.waits next)
      { s with abandoned := false }
  | awaits (s path point reply next) : next ≠ .started (.ok ()) →
    point = .hasPermission ∨ point = .nativeStart path →
    RecordSegment (.start path) (some (point, reply)) s (.waits next) s
  | starts (s path reply) : RecordSegment (.start path) (some (.nativeStart path, reply)) s
      (.waits (.started (.ok ()))) s.startRecording
  | records (s path reply) : s.cubit.isClosed = false →
    RecordSegment (.start path) (some (.started (.ok ()), reply)) s (.ends (.ok ()))
      (s.display (.recording 0)).hook
  | recordsClosed (s path reply failure) : s.cubit.isClosed = true →
    RecordSegment (.start path) (some (.started (.ok ()), reply)) s (.ends (.error failure)) s
  | refused (s path error reply outcome) :
    RecordSegment (.start path) (some (.started (.error error), reply)) s (.ends outcome)
      (s.display (.error error))
  | stops (s) (call : RecordCall) : call.StopsService s → s.service.recording = true →
    RecordSegment call none s (.waits .nativeStop) (call.beforeStop s).stopService
  | stopsNothing (s) (call : RecordCall) (next) : call.StopsService s →
    s.service.recording = false → AfterStop call next →
    RecordSegment call none s next (call.beforeStop s)
  | cools (s call reply next) : reply.result = .ok () → AfterStop call next →
    RecordSegment call (some (.nativeStop, reply)) s next s.cool
  | staysHot (s call reply error next) : reply.result = .error error → AfterStop call next →
    RecordSegment call (some (.nativeStop, reply)) s next s
  | notRecording (s) : s.cubit.state.isRecording = false →
    RecordSegment .stop none s (.ends (.ok ())) s
  | reviews (s result reply state outcome) : state.isRecording = false →
    RecordSegment .stop (some (.stopped result, reply)) s (.ends outcome) (s.display state)
  | cancelsNothing (s) : s.cubit.state.isRecording = false →
    RecordSegment .cancel none s (.ends (.ok ())) ({ s with abandoned := true }.display .idle)
  | cancels (s reply) :
    RecordSegment .cancel (some (.cancelled, reply)) s (.ends (.ok ())) (s.display .idle)
  | discards (s outcome) :
    RecordSegment .discard none s (.ends outcome) (s.display .idle)
  | closes (s) : RecordSegment .close none s (.waits .closing)
      { s.hangUp with abandoned := true, closing := true }
  | closed (s reply) : RecordSegment .close (some (.closing, reply)) s (.ends (.ok ()))
      { s with cubit := { s.cubit with isClosed := true } }

namespace RecordAudio

section

variable {call : RecordCall} {from? : Option (RecordAwait × RecorderReply)} {s₀ s : RecordAudio}

/-- `emit` ends a call, however it ends. -/
theorem follows_emit {state : RecordAudioState}
    (h : ∀ outcome, RecordSegment call from? s₀ (.ends outcome) (s.display state)) :
    (emit state).FollowsOn (RecordSegment call) from? s₀ s := by
  rw [emit, followsOn_get_bind, followsOn_modify_bind]
  split_ifs
  · exact h _
  · exact h _

theorem follows_start (path : String) :
    (start path).FollowsOn (RecordSegment (.start path)) none s s := by
  have hheard : ∀ {point : RecordAwait} {reply : RecorderReply} (u : RecordAudio) (error : String),
      point = .hasPermission ∨ point = .nativeStart path →
      (suspend (.started (.error error)) >>= fun _ => emit (.error error)).FollowsOn
        (RecordSegment (.start path)) (some (point, reply)) u u := fun u error hpoint =>
    ⟨.awaits u path _ _ _ nofun hpoint, fun v _ => follows_emit fun _ => .refused v path error _ _⟩
  let begun : RecordAudio := { s with abandoned := false }
  change FollowsOn _ none s ((if begun.service.recording then _ else _) >>= _) begun
  split_ifs
  · exact ⟨.begins s path _, fun u _ => follows_emit fun _ => .refused u path _ _ _⟩
  · refine ⟨.begins s path _, fun t permission => ?_⟩
    obtain ⟨result, granted, _⟩ := permission
    cases result with
    | error error => exact hheard t _ (.inl rfl)
    | ok _ =>
      cases granted with
      | false => exact hheard t _ (.inl rfl)
      | true =>
        refine ⟨.awaits t path _ _ _ nofun (.inl rfl), fun u started => ?_⟩
        obtain ⟨result, _, _⟩ := started
        cases result with
        | error error => exact hheard u _ (.inr rfl)
        | ok _ =>
          refine ⟨.starts u path _, fun v reply => ?_⟩
          change FollowsOn _ _ v ((if v.cubit.isClosed then _ else _) >>= _)
            (v.display (.recording 0))
          split_ifs with hclosed
          · have hsame : v.display (.recording 0) = v := if_pos hclosed
            rw [hsame]
            exact .recordsClosed v path reply _ hclosed
          · exact .records v path reply (Bool.not_eq_true _ ▸ hclosed)

/-- A call that stops the service, and goes on. -/
theorem follows_stopRecording_bind {f : Except String String → RecordProgram Unit}
    (hcall : call.StopsService s)
    (hf : ∀ result from? s₀ s, (∀ next, AfterStop call next → RecordSegment call from? s₀ next s) →
      (f result).FollowsOn (RecordSegment call) from? s₀ s) :
    (stopRecording >>= f).FollowsOn (RecordSegment call) none s (call.beforeStop s) := by
  have hflag : (call.beforeStop s).service.recording = s.service.recording := by
    cases call <;> rfl
  change FollowsOn _ none s ((if !(call.beforeStop s).service.recording then _ else _) >>= f) _
  rw [hflag]
  split_ifs with hrecording
  · refine hf _ _ _ _ fun next hnext => .stopsNothing s call next hcall ?_ hnext
    simpa using hrecording
  · refine ⟨.stops s call hcall (by simpa using hrecording), fun t reply => ?_⟩
    obtain ⟨result, granted, path⟩ := reply
    cases result with
    | error error => exact hf _ _ _ _ fun next hnext => .staysHot t call _ error next rfl hnext
    | ok _ =>
      cases path with
      | none => exact hf _ _ _ _ fun next hnext => .cools t call _ next rfl hnext
      | some path => exact hf _ _ _ _ fun next hnext => .cools t call _ next rfl hnext

theorem follows_perform (call : RecordCall) (s : RecordAudio) :
    (perform call).FollowsOn (RecordSegment call) none s s := by
  cases call with
  | start path => exact follows_start path
  | discard => exact follows_emit fun outcome => .discards s outcome
  | close => exact ⟨.closes s, fun t reply => .closed t reply⟩
  | capStop =>
    exact follows_stopRecording_bind trivial fun _ _ _ _ hnext => hnext _ .capStop
  | stop =>
    change FollowsOn _ none s (if !s.cubit.state.isRecording then _ else _) s
    split_ifs with hidle
    · exact .notRecording s (by simpa using hidle)
    · have hrecording : s.cubit.state.isRecording = true := by simpa using hidle
      refine follows_stopRecording_bind hrecording fun result from? s₀ u hnext => ?_
      refine ⟨hnext _ (.stop result), fun v reply => ?_⟩
      cases result with
      | ok path => exact follows_emit fun outcome => .reviews v _ reply _ outcome rfl
      | error error => exact follows_emit fun outcome => .reviews v _ reply _ outcome rfl
  | cancel =>
    change FollowsOn _ none s (if s.cubit.state.isRecording then _ else _)
      { s with abandoned := true }
    split_ifs with hrecording
    · refine follows_stopRecording_bind hrecording fun result from? s₀ u hnext => ?_
      exact ⟨hnext _ .cancel, fun v reply => .cancels v reply⟩
    · exact .cancelsNothing s (by simpa using hrecording)

end

end RecordAudio

end Duet
