import Duet.Score.RecordAudio

/-!
# No hot microphone

A recording that is cancelled leaves nothing behind, as long as the calls are made in turn: the
guards of the cubit and of the service look at states that are set only after what they await.

## Main results

* `inv_step` — what a call has left to stop, it still holds.
* `leavesCold_of_inTurn` — in a run whose calls are made in turn, nothing records after a cancel.
-/

namespace Duet

open Lib Async

/-- What is counted of the calls that wait. -/
inductive WaitKind where
  | start | ask | stop | cancel | close | nativeStop
  deriving DecidableEq, Repr

/-- A call that waits at a point counts. A start asks until the native recorder has started. -/
def WaitKind.counts : WaitKind → RecordCall → RecordAwait → Bool
  | start, .start _, _ => true
  | ask, .start _, point => point ≠ .started (.ok ())
  | stop, .stop, _ => true
  | cancel, .cancel, _ => true
  | close, .close, _ => true
  | nativeStop, _, .nativeStop => true
  | _, _, _ => false

namespace RecordAudioCalls

/-- How many calls wait. -/
def waiting (s : RecordAudioCalls) (kind : WaitKind) : Nat :=
  (s.collect fun call point => [(call, point)]).countP fun wait => kind.counts wait.1 wait.2

/-- Once a cancel or a close has been called that no start has followed, and all calls have settled,
the native recorder does not record, no timer runs, and the cubit is idle or closed. -/
def LeavesCold (s : RecordAudioCalls) : Prop :=
  s.state.abandoned = true → s.running = [] →
    s.state.hot = false ∧ s.state.tickers = [] ∧ s.state.serviceCaps = [] ∧
      s.state.cubitCaps = [] ∧ (s.state.cubit.state = .idle ∨ s.state.cubit.isClosed = true)

/-- A start is called when no start, stop or cancel waits and nothing is shown as recording, before
any close; a stop while no cancel waits; a cancel while no start and no stop waits; a close while no
start waits and the service does not record; and a discard while nothing is shown as recording. -/
def Permits (u : RecordAudio) (w : WaitKind → Nat) : RecordCall → Prop
  | .start _ => w .start = 0 ∧ w .stop = 0 ∧ w .cancel = 0 ∧
      u.cubit.state.isRecording = false ∧ u.closing = false
  | .stop => w .cancel = 0
  | .cancel => w .start = 0 ∧ w .stop = 0
  | .discard => u.cubit.state.isRecording = false
  | .close => w .start = 0 ∧ u.service.recording = false
  | .capStop => True

instance (u : RecordAudio) (w : WaitKind → Nat) (call : RecordCall) :
    Decidable (Permits u w call) := by
  cases call <;> unfold Permits <;> infer_instance

/-- A call is made when it is permitted, and the native recorder stops when it is told to. -/
def InTurn (s : RecordAudioCalls) : RecordEvent → Prop
  | .call call => Permits s.state (waiting s) call
  | .resume i reply => ∀ task ∈ s.running[i]?, task.rest.point? = some .nativeStop →
      reply.result = .ok ()
  | _ => True

instance (s : RecordAudioCalls) (e : RecordEvent) : Decidable (InTurn s e) :=
  match e with
  | .call call => inferInstanceAs (Decidable (Permits s.state (waiting s) call))
  | .resume i reply => inferInstanceAs (Decidable (∀ task ∈ s.running[i]?,
      task.rest.point? = some .nativeStop → reply.result = .ok ()))
  | .cubitCap _ => isTrue trivial
  | .serviceCap _ => isTrue trivial
  | .tick _ _ => isTrue trivial
  | .elapsed _ => isTrue trivial

/-- What is left to stop, while calls wait. -/
structure Core (u : RecordAudio) (w : WaitKind → Nat) : Prop where
  alone : 0 < w .start → w .start = 1 ∧ w .stop = 0 ∧ w .cancel = 0
  starting : 0 < w .start → u.cubit.state.isRecording = false ∧ u.closing = false ∧
    u.abandoned = false
  asks : u.service.recording = true → w .ask = 0
  serviceTimers : u.service.recording = false → u.tickers = [] ∧ u.serviceCaps = []
  tickerHeld : ∀ id ∈ u.tickers, some id = u.service.ticker
  serviceCapHeld : ∀ id ∈ u.serviceCaps, some id = u.service.capTimer
  cubitCapHeld : ∀ id ∈ u.cubitCaps, some id = u.cubit.capTimer
  subscriptionHeld : ∀ live ∈ u.subscriptions, some live.1 = u.cubit.elapsedSubscription
  hooked : u.cubit.state.isRecording = false → u.cubitCaps = [] ∧ u.subscriptions = []
  hot : u.hot = true → u.service.recording = true ∨ 0 < w .nativeStop
  shown : u.service.recording = true → u.cubit.state.isRecording = true ∨ 0 < w .start
  letGo : 0 < w .stop + w .cancel → u.service.recording = false ∧ u.cubitCaps = [] ∧
    u.subscriptions = []
  closes : u.cubit.isClosed = true ∨ 0 < w .close → u.closing = true
  closing : u.closing = true → u.abandoned = true ∧ (u.cubit.isClosed = true ∨ 0 < w .close)
  abandoned : u.abandoned = true → u.service.recording = false ∧ u.cubitCaps = [] ∧
    u.subscriptions = [] ∧ (u.closing = true ∨ w .stop = 0 ∧
      (u.cubit.state = .idle ∨ 0 < w .cancel))

/-- A call has gone on from one point to another. -/
def Tally (call : RecordCall) (from? to? : Option RecordAwait) (w w' : WaitKind → Nat) : Prop :=
  ∀ kind, w' kind + (from?.any (kind.counts call)).toNat =
    w kind + (to?.any (kind.counts call)).toNat

section

variable {s t : RecordAudioCalls} {u : RecordAudio} {w w' : WaitKind → Nat} {call : RecordCall}
  {from? next : Option RecordAwait}

open RecordAudio

/-! ### What the calls let go of -/

/-- What is held is all there is, and none of it is left. -/
theorem filter_held {β : Type} {l : List β} {id : β → Nat} {held : Option Nat}
    (h : ∀ x ∈ l, some (id x) = held) : l.filter (fun x => some (id x) ≠ held) = [] := by
  rw [List.filter_eq_nil_iff]
  intro x hx
  simp [h x hx]

theorem hangUp_eq (hcaps : ∀ id ∈ u.cubitCaps, some id = u.cubit.capTimer)
    (hsubscriptions : ∀ live ∈ u.subscriptions, some live.1 = u.cubit.elapsedSubscription) :
    u.hangUp = { u with cubitCaps := [], subscriptions := [] } := by
  rw [hangUp, filter_held hcaps, filter_held hsubscriptions]

theorem unhook_eq (hcaps : ∀ id ∈ u.cubitCaps, some id = u.cubit.capTimer)
    (hsubscriptions : ∀ live ∈ u.subscriptions, some live.1 = u.cubit.elapsedSubscription) :
    u.unhook = { u with
      cubit := { u.cubit with elapsedSubscription := none, capTimer := none }
      cubitCaps := []
      subscriptions := [] } := by
  rw [unhook, hangUp_eq hcaps hsubscriptions]

theorem hook_eq (hcaps : ∀ id ∈ u.cubitCaps, some id = u.cubit.capTimer)
    (hsubscriptions : ∀ live ∈ u.subscriptions, some live.1 = u.cubit.elapsedSubscription) :
    u.hook = { u with
      cubit := { u.cubit with
        elapsedSubscription := some u.nextId
        capTimer := some (u.nextId + 1) }
      cubitCaps := [u.nextId + 1]
      subscriptions := [(u.nextId, [])]
      nextId := u.nextId + 2 } := by
  rw [hook, hangUp_eq hcaps hsubscriptions]
  rfl

theorem stopService_eq (htickers : ∀ id ∈ u.tickers, some id = u.service.ticker)
    (hcaps : ∀ id ∈ u.serviceCaps, some id = u.service.capTimer) :
    u.stopService = { u with
      service := ⟨false, none, none⟩
      tickers := []
      serviceCaps := [] } := by
  rw [stopService, filter_held htickers, filter_held hcaps]

attribute [local grind] WaitKind.counts Tally Permits RecordCall.StopsService
  RecordCall.beforeStop RecordAudioState.isRecording display startRecording cool
  Stop.point?
attribute [local grind =] Option.any_some Option.any_none
attribute [local grind cases] Core

/-! ### A start -/

section

variable {path error : String} {point point' : RecordAwait}

theorem Core.begins (h : Core u w) (hpermits : Permits u w (.start path))
    (htally : Tally (.start path) none (some point) w w') :
    Core { u with abandoned := false } w' := by
  obtain ⟨hstart, hstop, hcancel, hrecording, hclosing⟩ := hpermits
  have hsilent : u.service.recording = false := by grind
  constructor <;> grind

theorem Core.awaits (h : Core u w) (hpoint : point = .hasPermission ∨ point = .nativeStart path)
    (hnext : point' ≠ .started (.ok ()))
    (htally : Tally (.start path) (some point) (some point') w w') : Core u w' := by
  constructor <;> grind

/-- The start that has waited is the only call that asks. -/
theorem Core.starts (h : Core u w) (hle : w .ask ≤ w .start)
    (htally : Tally (.start path) (some (.nativeStart path)) (some (.started (.ok ()))) w w') :
    Core u.startRecording w' := by
  have hasks : 0 < w .ask := by grind
  have hsilent : u.service.recording = false := by grind
  obtain ⟨htickers, hcaps⟩ := h.serviceTimers hsilent
  have hone : w .start = 1 := by grind
  constructor <;> grind

theorem Core.records (h : Core u w) (hopen : u.cubit.isClosed = false)
    (htally : Tally (.start path) (some (.started (.ok ()))) none w w')
    (hle : w' .ask ≤ w' .start) : Core (u.display (.recording 0)).hook w' := by
  have hwaits : 0 < w .start := by grind
  obtain ⟨hrecording, hclosing, habandoned⟩ := h.starting hwaits
  have hdone : w' .start = 0 ∧ w' .stop = 0 ∧ w' .cancel = 0 := by grind
  have hdisplay : u.display (.recording 0) =
      { u with cubit := { u.cubit with state := .recording 0 } } := by simp [display, hopen]
  rw [hdisplay, hook_eq]
  · constructor <;> grind
  · exact h.cubitCapHeld
  · exact h.subscriptionHeld

/-- A start that goes on has begun before any close. -/
theorem Core.recordsClosed (h : Core u w) (hclosed : u.cubit.isClosed = true)
    (htally : Tally (.start path) (some (.started (.ok ()))) none w w') : Core u w' := by
  have hclosing := h.closes (.inl hclosed)
  grind

theorem Core.refused (h : Core u w) (hle : w .ask ≤ w .start)
    (htally : Tally (.start path) (some (.started (.error error))) none w w') :
    Core (u.display (.error error)) w' := by
  have hasks : 0 < w .ask := by grind
  have hone : w .start = 1 := by grind
  have hsilent : u.service.recording = false := by grind
  constructor <;> grind

end

/-! ### A call that stops the service -/

theorem Core.stops (h : Core u w) (hpermits : Permits u w call) (hcall : call.StopsService u)
    (hservice : u.service.recording = true) (htally : Tally call none (some .nativeStop) w w') :
    Core (call.beforeStop u).stopService w' := by
  have hkept : u.abandoned = false := by grind
  have hnone : w .stop = 0 ∧ w .cancel = 0 := by grind
  cases call with
  | start | discard | close => cases hcall
  | stop =>
    have hstart : w .start = 0 := by grind
    change Core u.unhook.stopService w'
    rw [unhook_eq h.cubitCapHeld h.subscriptionHeld, stopService_eq]
    · constructor <;> grind
    · exact h.tickerHeld
    · exact h.serviceCapHeld
  | cancel =>
    change Core ({ u with abandoned := true } : RecordAudio).unhook.stopService w'
    rw [unhook_eq, stopService_eq]
    · constructor <;> grind
    · exact h.tickerHeld
    · exact h.serviceCapHeld
    · exact h.cubitCapHeld
    · exact h.subscriptionHeld
  | capStop =>
    change Core u.stopService w'
    rw [stopService_eq h.tickerHeld h.serviceCapHeld]
    constructor <;> grind

/-- The service has stopped already. -/
theorem Core.stopsNothing (h : Core u w) (hpermits : Permits u w call)
    (hcall : call.StopsService u) (hservice : u.service.recording = false)
    {stop : Stop RecordAwait String Unit} (hafter : AfterStop call stop)
    (htally : Tally call none stop.point? w w') : Core (call.beforeStop u) w' := by
  cases hafter with
  | stop result =>
    have hcancel : w .cancel = 0 := hpermits
    have hstart : w .start = 0 := by grind
    change Core u.unhook w'
    rw [unhook_eq h.cubitCapHeld h.subscriptionHeld]
    constructor <;> grind
  | cancel =>
    change Core ({ u with abandoned := true } : RecordAudio).unhook w'
    rw [unhook_eq]
    · constructor <;> grind
    · exact h.cubitCapHeld
    · exact h.subscriptionHeld
  | capStop =>
    change Core u w'
    constructor <;> grind

/-- The native recorder has stopped. -/
theorem Core.cools {stop : Stop RecordAwait String Unit} (h : Core u w)
    (hafter : AfterStop call stop) (htally : Tally call (some .nativeStop) stop.point? w w') :
    Core u.cool w' := by
  cases hafter <;> constructor <;> grind

/-- A stop has been heard of: the service does not record, and no timer runs that would stop it. -/
theorem Core.reviews {result : Except String String} {state : RecordAudioState} (h : Core u w)
    (hstate : state.isRecording = false)
    (htally : Tally .stop (some (.stopped result)) none w w') : Core (u.display state) w' := by
  have hstop : 0 < w .stop := by grind
  obtain ⟨hsilent, hcaps, hsubscriptions⟩ := h.letGo (by omega)
  constructor <;> grind

theorem Core.cancelsNothing (h : Core u w) (hpermits : Permits u w .cancel)
    (hrecording : u.cubit.state.isRecording = false) (htally : Tally .cancel none none w w') :
    Core ({ u with abandoned := true }.display .idle) w' := by
  obtain ⟨hstart, hstop⟩ := hpermits
  have hsilent : u.service.recording = false := by grind
  obtain ⟨hcaps, hsubscriptions⟩ := h.hooked hrecording
  constructor <;> grind

theorem Core.cancels (h : Core u w) (htally : Tally .cancel (some .cancelled) none w w') :
    Core (u.display .idle) w' := by
  have hcancel : 0 < w .cancel := by grind
  obtain ⟨hsilent, hcaps, hsubscriptions⟩ := h.letGo (by omega)
  constructor <;> grind

/-! ### A discard, and a close -/

theorem Core.discards (h : Core u w) (hrecording : u.cubit.state.isRecording = false)
    (htally : Tally .discard none none w w') : Core (u.display .idle) w' := by
  obtain ⟨hcaps, hsubscriptions⟩ := h.hooked hrecording
  constructor <;> grind

theorem Core.beginsClose (h : Core u w) (hpermits : Permits u w .close)
    (htally : Tally .close none (some .closing) w w') :
    Core { u.hangUp with abandoned := true, closing := true } w' := by
  obtain ⟨hstart, hsilent⟩ := hpermits
  rw [hangUp_eq h.cubitCapHeld h.subscriptionHeld]
  constructor <;> grind

theorem Core.closed (h : Core u w) (htally : Tally .close (some .closing) none w w') :
    Core { u with cubit := { u.cubit with isClosed := true } } w' := by
  have hclose : 0 < w .close := by grind
  have hclosing := h.closes (.inr hclose)
  constructor <;> grind

/-! ### What a call does from one await to the next -/

section

variable {point : RecordAwait} {reply : RecorderReply} {stop : Stop RecordAwait String Unit}
  {u' : RecordAudio}

theorem Core.of_call (h : Core u w) (hpermits : Permits u w call)
    (hseg : RecordSegment call none u stop u') (htally : Tally call none stop.point? w w') :
    Core u' w' := by
  cases hseg with
  | begins => exact h.begins hpermits htally
  | stops _ _ hcall hservice => exact h.stops hpermits hcall hservice htally
  | stopsNothing _ _ _ hcall hservice hafter =>
    exact h.stopsNothing hpermits hcall hservice hafter htally
  | notRecording => constructor <;> grind
  | cancelsNothing _ hrecording => exact h.cancelsNothing hpermits hrecording htally
  | discards => exact h.discards hpermits htally
  | closes => exact h.beginsClose hpermits htally

theorem Core.of_resume (h : Core u w) (hle : w .ask ≤ w .start) (hle' : w' .ask ≤ w' .start)
    (hreply : point = .nativeStop → reply.result = .ok ())
    (hseg : RecordSegment call (some (point, reply)) u stop u')
    (htally : Tally call (some point) stop.point? w w') : Core u' w' := by
  cases hseg with
  | awaits _ _ _ _ _ hnext hpoint => exact h.awaits hpoint hnext htally
  | starts => exact h.starts hle htally
  | records _ _ _ hopen => exact h.records hopen htally hle'
  | recordsClosed _ _ _ _ hclosed => exact h.recordsClosed hclosed htally
  | refused => exact h.refused hle htally
  | cools _ _ _ _ _ hafter => exact h.cools hafter htally
  | staysHot _ _ _ _ _ hfailed => cases hfailed.symm.trans (hreply rfl)
  | reviews _ _ _ _ _ hstate => exact h.reviews hstate htally
  | cancels => exact h.cancels htally
  | closed => exact h.closed htally

end

/-! ### The calls that wait -/

section

variable {left : RecordProgram Unit × RecordAudio} {stop : Stop RecordAwait String Unit}

/-- A call has run to where it stops. -/
theorem waiting_settle (hstop : left.1.stop? = some stop) (kind : WaitKind) :
    waiting (Lib.Isolate.settle s call left) kind =
      waiting s kind + (stop.point?.any (kind.counts call)).toNat := by
  rw [waiting, Lib.Isolate.collect_settle hstop, List.countP_append, waiting]
  congr 1
  cases stop with
  | waits point => cases hcounts : kind.counts call point <;> simp [Stop.point?, hcounts]
  | ends outcome => rfl

theorem tally_call (hstop : left.1.stop? = some stop) : Tally call none stop.point? (waiting s)
    (waiting (Lib.Isolate.settle { s with called := s.called ++ [call] } call left)) := by
  intro kind
  rw [waiting_settle hstop]
  rfl

theorem tally_resume {i : Nat} {point : RecordAwait} {k : RecorderReply → RecordProgram Unit}
    (hrunning : s.running[i]? = some ⟨call, .await point k⟩)
    (hstop : left.1.stop? = some stop) :
    Tally call (some point) stop.point? (waiting s)
      (waiting (Lib.Isolate.settle { s with running := s.running.eraseIdx i } call left)) := by
  intro kind
  have hperm := Lib.Isolate.collect_perm_eraseIdx hrunning fun call point => [(call, point)]
  have hcount : waiting s kind = (kind.counts call point).toNat +
      waiting { s with running := s.running.eraseIdx i } kind := by
    rw [waiting, hperm.countP_eq, List.countP_append, waiting]
    cases hcounts : kind.counts call point <;> simp [hcounts]
  rw [waiting_settle hstop, hcount, Option.any_some]
  omega

theorem waiting_ask_le (s : RecordAudioCalls) : waiting s .ask ≤ waiting s .start := by
  refine List.countP_mono_left fun wait _ hask => ?_
  obtain ⟨call, point⟩ := wait
  cases call with
  | start => rfl
  | _ => cases hask

end

/-! ### Timers and ticks -/

theorem Core.cubitCap {timer : Nat} (h : Core u w) :
    Core { u with cubitCaps := u.cubitCaps.erase timer } w := by
  have hsub : ∀ id ∈ u.cubitCaps.erase timer, id ∈ u.cubitCaps :=
    fun id hid => List.mem_of_mem_erase hid
  have hnone : u.cubitCaps = [] → u.cubitCaps.erase timer = [] := by
    intro hcaps
    rw [hcaps]
    rfl
  constructor <;> grind

theorem Core.serviceCap {timer : Nat} (h : Core u w) :
    Core { u with serviceCaps := u.serviceCaps.erase timer } w := by
  have hsub : ∀ id ∈ u.serviceCaps.erase timer, id ∈ u.serviceCaps :=
    fun id hid => List.mem_of_mem_erase hid
  have hnone : u.serviceCaps = [] → u.serviceCaps.erase timer = [] := by
    intro hcaps
    rw [hcaps]
    rfl
  constructor <;> grind

/-- The timer that the cubit holds is not set while a cancel waits. -/
theorem Core.permits_cap {timer : Nat} (h : Core u w) (htimer : timer ∈ u.cubitCaps) :
    Permits { u with cubitCaps := u.cubitCaps.erase timer } w .stop := by
  change w .cancel = 0
  by_contra hcancel
  obtain ⟨-, hcaps, -⟩ := h.letGo (by omega)
  rw [hcaps] at htimer
  cases htimer

theorem Core.tick {elapsed : Int} (h : Core u w) :
    Core { u with
      subscriptions := u.subscriptions.map fun live => (live.1, live.2 ++ [elapsed]) } w := by
  have hnone : u.subscriptions = [] →
      u.subscriptions.map (fun live => (live.1, live.2 ++ [elapsed])) = [] := by
    intro hsubscriptions
    rw [hsubscriptions]
    rfl
  constructor <;> grind

/-- A subscription is live while the cubit shows that it records. -/
theorem Core.elapsed {subscription : Nat} {elapsed : Int} {rest : List Int} (h : Core u w)
    (hlive : Assoc.get u.subscriptions subscription = some (elapsed :: rest)) :
    Core ({ u with subscriptions := Assoc.set u.subscriptions subscription rest }.display
      (.recording elapsed)) w := by
  have hmem := Assoc.mem_of_get hlive
  have hne : u.subscriptions ≠ [] := List.ne_nil_of_mem hmem
  have hrecording : u.cubit.state.isRecording = true := by grind
  have hheld : some subscription = u.cubit.elapsedSubscription := h.subscriptionHeld _ hmem
  have hids : ∀ live ∈ Assoc.set u.subscriptions subscription rest,
      some live.1 = u.cubit.elapsedSubscription := by
    intro live hin
    obtain rfl | hold := Assoc.eq_or_mem_of_mem_set hin
    · exact hheld
    · exact h.subscriptionHeld _ hold
  constructor <;> grind

end

/-! ### Runs -/

/-- The calls go on as specified, and hold what is left to stop. -/
structure Inv (s : RecordAudioCalls) : Prop where
  obeys : s.ObeysOn RecordSegment
  core : Core s.state (waiting s)

section

variable {s t : RecordAudioCalls} {call : RecordCall} {f : RecordAudio → RecordAudio}

theorem inv_start : start.Inv where
  obeys := nofun
  core := by constructor <;> decide

theorem Inv.change (h : s.Inv) (hcore : Core (f s.state) (waiting s)) : (change s f).Inv :=
  ⟨h.obeys, hcore⟩

theorem Inv.make (h : s.Inv) (hpermits : Permits s.state (waiting s) call)
    (hmake : make s call = some t) : t.Inv := by
  obtain ⟨hobeys, left, stop, hstop, hseg, rfl⟩ :=
    Lib.Isolate.obeysOn_step RecordAudio.follows_perform h.obeys hmake
  refine ⟨hobeys, ?_⟩
  rw [Lib.Isolate.state_settle]
  exact h.core.of_call hpermits hseg (tally_call hstop)

theorem inv_step {e : RecordEvent} (h : s.Inv) (hin : InTurn s e) (hstep : step s e = some t) :
    t.Inv := by
  cases e with
  | call call =>
    rw [step] at hstep
    split_ifs at hstep
    exact h.make hin hstep
  | resume i reply =>
    change Lib.Isolate.step RecordAudio.perform id s (.resume i reply) = some t at hstep
    obtain ⟨hobeys, call, point, k, left, stop, hrunning, hstop, hseg, rfl⟩ :=
      Lib.Isolate.obeysOn_step RecordAudio.follows_perform h.obeys hstep
    refine ⟨hobeys, ?_⟩
    rw [Lib.Isolate.state_settle]
    refine h.core.of_resume (waiting_ask_le s) (waiting_ask_le _) ?_ hseg
      (tally_resume hrunning hstop)
    intro hpoint
    exact hin _ hrunning (congrArg some hpoint)
  | cubitCap timer =>
    rw [step] at hstep
    split_ifs at hstep with htimer
    refine Inv.make (h.change ?_) ?_ hstep
    · exact h.core.cubitCap
    · exact h.core.permits_cap htimer
  | serviceCap timer =>
    rw [step] at hstep
    split_ifs at hstep
    refine Inv.make (h.change ?_) ?_ hstep
    · exact h.core.serviceCap
    · trivial
  | tick ticker elapsed =>
    rw [step] at hstep
    split_ifs at hstep
    obtain rfl := Option.some.inj hstep
    exact h.change h.core.tick
  | elapsed subscription =>
    rw [step] at hstep
    split at hstep
    · next elapsed rest hlive =>
      obtain rfl := Option.some.inj hstep
      exact h.change (h.core.elapsed hlive)
    · cases hstep

/-- Once nothing waits, all that was left to stop has stopped. -/
theorem Inv.leavesCold (h : s.Inv) : s.LeavesCold := by
  intro habandoned hidle
  have hnone : ∀ kind, waiting s kind = 0 := by
    intro kind
    simp [waiting, Lib.Isolate.collect, hidle]
  obtain ⟨hsilent, hcaps, -, hshown⟩ := h.core.abandoned habandoned
  obtain ⟨htickers, hserviceCaps⟩ := h.core.serviceTimers hsilent
  have hhot : s.state.hot = false := by grind [h.core.hot]
  refine ⟨hhot, htickers, hserviceCaps, hcaps, ?_⟩
  grind [h.core.closing]

/-- A run whose calls are made in turn leaves nothing recording, in every state it visits. -/
theorem leavesCold_of_inTurn {events : List RecordEvent}
    (h : EachStep step InTurn start events) : Always step LeavesCold start events :=
  .of_invariant (fun _ _ _ h hin hstep => inv_step h hin hstep) (fun _ h => h.leavesCold)
    inv_start h

end

/-- What comes back when all goes well. -/
def allowed : RecorderReply := ⟨.ok (), true, some "/a"⟩

/-- A recording that is cancelled while it ticks. -/
def cancelsRecording : List RecordEvent :=
  [.call (.start "/a"), .resume 0 allowed, .resume 0 allowed, .resume 0 allowed, .tick 0 100,
    .elapsed 2, .call .cancel, .resume 0 allowed, .resume 0 allowed]

theorem leavesCold_cancelsRecording : Always step LeavesCold start cancelsRecording :=
  leavesCold_of_inTurn (by decide +kernel)

/-- A recording that is cancelled while the permission is asked for. -/
def cancelsEarly : List RecordEvent :=
  [.call (.start "/a"), .call .cancel, .resume 0 allowed, .resume 0 allowed, .resume 0 allowed]

/-- The microphone stays hot. -/
theorem not_leavesCold : ¬∀ events, Always step LeavesCold start events := by
  intro h
  have hruns : ((run step start cancelsEarly).any fun s =>
      s.running.isEmpty && s.state.abandoned && s.state.hot) = true := by decide +kernel
  obtain ⟨s, hrun, hs⟩ := (Option.any_eq_true _ _).mp hruns
  obtain ⟨hsettled, hhot⟩ := Bool.and_eq_true_iff.mp hs
  obtain ⟨hidle, habandoned⟩ := Bool.and_eq_true_iff.mp hsettled
  obtain ⟨hcold, -⟩ := (h cancelsEarly).last hrun habandoned (List.isEmpty_iff.mp hidle)
  cases hcold.symm.trans hhot

end RecordAudioCalls

end Duet
