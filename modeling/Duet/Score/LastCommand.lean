import Duet.Lib.Jobs
import Duet.Score.AudioPlayback
import Mathlib.Data.List.Nodup

/-!
# The last command

What is shown as playing is what the last call has asked for, as long as the calls' answers arrive
in an order in which none of them undoes a later one.

## Main results

* `inv_step` — one subscription, to the note of the last call.
* `followsLastCommand_of_inOrder` — a run whose answers arrive so follows its last command.
-/

namespace Duet

open Lib Async

namespace AudioPlayback

/-! ## What the calls ask for -/

/-- What has been asked for once a call is made: a note whose start has succeeded, or nothing; a
start that has not succeeded asks for nothing new. -/
def afterCall (started : List (Nat × String)) (asked : Option (Option String))
    (call : PlaybackCall) : Option (Option String) :=
  match call.command with
  | .play noteId _ => if call.id ∈ started.map Prod.fst then some (some noteId) else asked
  | .stop => some none

/-- What has been asked for last: the note of the last `play` whose start has succeeded, or nothing
when `stop` has been called after it. -/
def asked (s : AudioPlayback) : Option (Option String) :=
  s.called.foldl (afterCall s.state.started) none

/-- The state shows what has been asked for. -/
def Shows (state : AudioPlaybackState) : Option String → Prop
  | some noteId => ∃ progress, state = .playing noteId progress
  | none => state = .idle

/-- Once all calls have settled one subscription is live at most, and the state shows what has been
asked for last; and progress is emitted under the note that has been started last only. -/
structure FollowsLastCommand (s : AudioPlayback) : Prop where
  subscriptions : s.running = [] → s.state.subscriptions.length ≤ 1
  state : s.running = [] → ∀ noteId ∈ asked s, Shows s.state.state noteId
  emitted : ∀ emission ∈ s.state.emitted, emission.2 = some emission.1

/-- The call has not settled. -/
def Pending (s : AudioPlayback) (call : PlaybackCall) : Prop := ∃ task ∈ s.running, task.call = call

instance (s : AudioPlayback) (call : PlaybackCall) : Decidable (Pending s call) :=
  inferInstanceAs (Decidable (∃ task ∈ s.running, task.call = call))

/-- No call has been made after it. -/
def IsLast (s : AudioPlayback) (call : PlaybackCall) : Prop := call.id + 1 = s.called.length

instance (s : AudioPlayback) (call : PlaybackCall) : Decidable (IsLast s call) :=
  inferInstanceAs (Decidable (_ = _))

/-- What may come back to a call at one of its awaits. -/
def Answers (s : AudioPlayback) (call : PlaybackCall) : PlaybackAwait → PlaybackReply → Prop
  | .startPlay, .ok _ => IsLast s call
  | .played (.ok _), _ => IsLast s call
  | .played (.error _), _ => asked s = none ∨
      ∃ task ∈ s.running, IsLast s task.call ∧ task.call ≠ call
  | .stopPlay, _ => ∀ later ∈ s.called, call.id < later.id →
      later.id ∈ s.state.started.map Prod.fst → Pending s later
  | _, _ => True

instance (s : AudioPlayback) (call : PlaybackCall) (point : PlaybackAwait) (reply : PlaybackReply) :
    Decidable (Answers s call point reply) :=
  match point, reply with
  | .startPlay, .ok _ => inferInstanceAs (Decidable (IsLast s call))
  | .played (.ok _), _ => inferInstanceAs (Decidable (IsLast s call))
  | .played (.error _), _ => inferInstanceAs (Decidable (asked s = none ∨
      ∃ task ∈ s.running, IsLast s task.call ∧ task.call ≠ call))
  | .stopPlay, _ => inferInstanceAs (Decidable (∀ later ∈ s.called, call.id < later.id →
      later.id ∈ s.state.started.map Prod.fst → Pending s later))
  | .startPlay, .error _ => isTrue trivial
  | .setFilePath, _ => isTrue trivial

/-- A start succeeds, and is heard of, while no call has been made after it; a start that has failed
is heard of while a later call is still pending, or nothing has been asked for; and the player is
heard to have stopped before any note is shown that has been asked for later. -/
def InOrder (s : AudioPlayback) : PlaybackEvent → Prop
  | .resume i reply => ∀ task ∈ s.running[i]?, ∀ point ∈ task.rest.point?,
      Answers s task.call point reply
  | _ => True

instance (s : AudioPlayback) (e : PlaybackEvent) : Decidable (InOrder s e) :=
  match e with
  | .resume i reply => inferInstanceAs (Decidable (∀ task ∈ s.running[i]?,
      ∀ point ∈ task.rest.point?, Answers s task.call point reply))
  | .call _ => isTrue trivial
  | .progress _ _ => isTrue trivial

/-- How the last call has settled. -/
def Settled (s : AudioPlayback) (call : PlaybackCall) : Prop :=
  match call.command with
  | .play noteId _ => (call.id, noteId) ∈ s.state.started ∧ Shows s.state.state (some noteId) ∨
      asked s = none
  | .stop => Shows s.state.state none

/-- One subscription is live at most: the one that is held, to the note of the last call. -/
def Listens (s : AudioPlayback) : Prop :=
  s.state.subscriptions = [] ∨ ∃ subscription call noteId path,
    s.state.progressSubscription = some subscription ∧
    s.state.subscriptions = [(subscription, noteId)] ∧ call ∈ s.called ∧
    call.command = .play noteId path ∧ IsLast s call ∧ ¬Pending s call ∧
    (call.id, noteId) ∈ s.state.started

/-- The calls are numbered, and those that run are among them; what has started belongs to a call,
and the last call, if it has started, has started last; once it is not pending, it has settled. -/
structure Inv (s : AudioPlayback) : Prop where
  obeys : s.ObeysOn PlaybackSegment
  numbered : ∀ (i : Nat) (call : PlaybackCall), s.called[i]? = some call → call.id = i
  runs : ∀ task ∈ s.running, task.call ∈ s.called
  distinct : (s.running.map (·.call.id)).Nodup
  started : ∀ id noteId, (id, noteId) ∈ s.state.started →
    ∃ call ∈ s.called, call.id = id ∧ ∃ path, call.command = .play noteId path
  startedLast : ∀ id noteId, (id, noteId) ∈ s.state.started → id + 1 = s.called.length →
    s.state.startedLast = some noteId
  played : ∀ task ∈ s.running, ∀ value, task.rest.point? = some (.played (.ok value)) →
    ∀ noteId path, task.call.command = .play noteId path →
      (task.call.id, noteId) ∈ s.state.started
  listens : s.Listens
  settled : ∀ call ∈ s.called, IsLast s call → ¬Pending s call → s.Settled call
  emitted : ∀ emission ∈ s.state.emitted, emission.2 = some emission.1

section

variable {s t : AudioPlayback} {call call' : PlaybackCall} {point : PlaybackAwait}
  {reply : PlaybackReply} {i : Nat}

theorem inv_start : start.Inv where
  obeys := nofun
  numbered := nofun
  runs := nofun
  distinct := .nil
  started := nofun
  startedLast := nofun
  played := nofun
  listens := .inl rfl
  settled := nofun
  emitted := nofun

/-! ### The calls in their order -/

theorem Inv.id_lt (h : s.Inv) (hcall : call ∈ s.called) : call.id < s.called.length := by
  obtain ⟨j, hj, rfl⟩ := List.getElem_of_mem hcall
  rw [h.numbered j _ (List.getElem?_eq_getElem hj)]
  exact hj

theorem Inv.eq_of_id (h : s.Inv) (hcall : call ∈ s.called) (hcall' : call' ∈ s.called)
    (hid : call.id = call'.id) : call = call' := by
  obtain ⟨j, hj⟩ := List.getElem?_of_mem hcall
  obtain ⟨j', hj'⟩ := List.getElem?_of_mem hcall'
  obtain rfl : j = j' := by rw [← h.numbered j _ hj, ← h.numbered j' _ hj', hid]
  exact Option.some.inj (hj.symm.trans hj')

/-- The last call is the last one in the list. -/
theorem Inv.called_eq (h : s.Inv) (hcall : call ∈ s.called) (hlast : IsLast s call) :
    ∃ earlier, s.called = earlier ++ [call] := by
  obtain hnil | ⟨earlier, last, hconcat⟩ := List.eq_nil_or_concat s.called
  · rw [hnil] at hcall
    cases hcall
  · rw [List.concat_eq_append] at hconcat
    have hlast' : last ∈ s.called := by simp [hconcat]
    have hid : last.id = earlier.length := h.numbered _ _ (by simp [hconcat])
    have hlength : s.called.length = earlier.length + 1 := by simp [hconcat]
    obtain rfl := h.eq_of_id hcall hlast' (by rw [IsLast] at hlast; omega)
    exact ⟨earlier, hconcat⟩

theorem foldl_afterCall_eq_none {started : List (Nat × String)} {calls : List PlaybackCall}
    {acc : Option (Option String)} (h : calls.foldl (afterCall started) acc = none) :
    acc = none ∧ ∀ call ∈ calls, afterCall started none call = none := by
  induction calls generalizing acc with
  | nil => exact ⟨h, nofun⟩
  | cons call rest ih =>
    obtain ⟨hfirst, hrest⟩ := ih h
    have hacc : acc = none := by
      unfold afterCall at hfirst
      split at hfirst
      · split_ifs at hfirst
        exact hfirst
      · cases hfirst
    subst hacc
    exact ⟨rfl, List.forall_mem_cons.mpr ⟨hfirst, hrest⟩⟩

theorem not_stop_of_asked_eq_none (h : asked s = none) (hcall : call ∈ s.called) :
    call.command ≠ .stop := by
  intro hstop
  have hnone := (foldl_afterCall_eq_none h).2 call hcall
  simp [afterCall, hstop] at hnone

/-- What the last call asks for, once its start has succeeded. -/
theorem Inv.asked_of_started {noteId path : String} (h : s.Inv) (hcall : call ∈ s.called)
    (hlast : IsLast s call) (hplay : call.command = .play noteId path)
    (hstarted : call.id ∈ s.state.started.map Prod.fst) : asked s = some (some noteId) := by
  obtain ⟨earlier, hcalled⟩ := h.called_eq hcall hlast
  rw [asked, hcalled, List.foldl_append, List.foldl_cons, List.foldl_nil, afterCall, hplay]
  exact if_pos hstarted

theorem Inv.asked_of_stop (h : s.Inv) (hcall : call ∈ s.called) (hlast : IsLast s call)
    (hstop : call.command = .stop) : asked s = some none := by
  obtain ⟨earlier, hcalled⟩ := h.called_eq hcall hlast
  rw [asked, hcalled, List.foldl_append, List.foldl_cons, List.foldl_nil, afterCall, hstop]

/-- Once the last call has settled, the state shows what has been asked for. -/
theorem Inv.followsLastCommand (h : s.Inv) : s.FollowsLastCommand where
  subscriptions _ := by
    obtain hnone | ⟨_, _, _, _, _, hone, -⟩ := h.listens
    · simp [hnone]
    · simp [hone]
  state hidle noteId hasked := by
    obtain hnil | ⟨earlier, last, hconcat⟩ := List.eq_nil_or_concat s.called
    · simp [asked, hnil] at hasked
    · rw [List.concat_eq_append] at hconcat
      have hcall : last ∈ s.called := by simp [hconcat]
      have hlast : IsLast s last := by
        rw [IsLast, h.numbered earlier.length last (by simp [hconcat])]
        simp [hconcat]
      have hsettled := h.settled last hcall hlast (by simp [Pending, hidle])
      unfold Settled at hsettled
      split at hsettled
      · next played path hplay =>
        obtain ⟨hstarted, hshows⟩ | hnone := hsettled
        · have hmine := h.asked_of_started hcall hlast hplay (List.mem_map_of_mem hstarted)
          obtain rfl : some played = noteId := Option.some.inj (hmine.symm.trans hasked)
          exact hshows
        · cases hnone.symm.trans hasked
      · next hstop =>
        have hmine := h.asked_of_stop hcall hlast hstop
        obtain rfl : none = noteId := Option.some.inj (hmine.symm.trans hasked)
        exact hsettled
  emitted := h.emitted

/-! ### A call is made -/

theorem subscriptions_teardown (h : Listens s) : s.state.teardown.subscriptions = [] := by
  obtain hnone | ⟨_, _, _, _, hheld, hone, -⟩ := h
  · simp [AudioPlaybackCubit.teardown, hnone]
  · simp [AudioPlaybackCubit.teardown, hheld, hone]

theorem Inv.make {command : PlaybackCommand} (h : s.Inv) (hmake : make s command = some t) :
    t.Inv := by
  obtain ⟨hobeys, left, stop, hstop, hseg, rfl⟩ :=
    Lib.Isolate.obeysOn_step follows_perform h.obeys hmake
  let made : PlaybackCall := ⟨s.called.length, command⟩
  -- the new call waits, and nothing else has happened but the teardown
  obtain ⟨first, hfirst, hstate, hnew⟩ : ∃ first, stop = .waits first ∧
      left.2 = s.state.teardown ∧ ∀ result, first ≠ .played result := by
    generalize left.2 = u at hseg
    cases hseg with
    | plays | stops => exact ⟨_, rfl, rfl, nofun⟩
  subst hfirst
  obtain ⟨hpoint, hended⟩ := point?_of_stop? hstop
  have hstate' : (Lib.Isolate.settle { s with called := s.called ++ [made] } made left).state =
      s.state.teardown := by
    rw [Lib.Isolate.state_settle, hstate]
  have hrunning : (Lib.Isolate.settle { s with called := s.called ++ [made] } made left).running =
      s.running ++ [⟨made, left.1⟩] := by
    rw [Lib.Isolate.running_settle, hended]
    rfl
  have hcalled : (Lib.Isolate.settle { s with called := s.called ++ [made] } made left).called =
      s.called ++ [made] := Lib.Isolate.called_settle
  generalize Lib.Isolate.settle { s with called := s.called ++ [made] } made left = t at *
  have hstarted : ∀ id noteId, (id, noteId) ∈ s.state.started → id < s.called.length := by
    intro id noteId hmem
    obtain ⟨call, hcall, rfl, -⟩ := h.started id noteId hmem
    exact h.id_lt hcall
  refine ⟨hobeys, ?_, ?_, ?_, ?_, ?_, ?_, ?_, ?_, ?_⟩
  · intro i call hi
    rw [hcalled] at hi
    obtain hold | ⟨rfl, rfl⟩ := getElem?_concat_cases hi
    · exact h.numbered i call hold
    · rfl
  · intro task htask
    rw [hcalled]
    rw [hrunning] at htask
    obtain hold | hnew := List.mem_append.mp htask
    · exact List.mem_append_left _ (h.runs task hold)
    · obtain rfl := List.mem_singleton.mp hnew
      exact List.mem_append_right _ (List.mem_singleton_self _)
  · rw [hrunning, List.map_append, List.nodup_append]
    refine ⟨h.distinct, List.nodup_singleton _, fun id hid id' hid' => ?_⟩
    obtain ⟨task, htask, rfl⟩ := List.mem_map.mp hid
    obtain rfl := List.mem_singleton.mp hid'
    exact Nat.ne_of_lt (h.id_lt (h.runs task htask))
  · intro id noteId hmem
    rw [hstate'] at hmem
    obtain ⟨call, hcall, hrest⟩ := h.started id noteId hmem
    exact ⟨call, by rw [hcalled]; exact List.mem_append_left _ hcall, hrest⟩
  · intro id noteId hmem hlast
    rw [hstate'] at hmem
    have hlt := hstarted id noteId hmem
    rw [hcalled, List.length_append, List.length_singleton] at hlast
    omega
  · intro task htask value hplayed noteId path hplay
    rw [hstate']
    rw [hrunning] at htask
    obtain hold | hmade := List.mem_append.mp htask
    · exact h.played task hold value hplayed noteId path hplay
    · obtain rfl := List.mem_singleton.mp hmade
      exact absurd (Option.some.inj (hpoint.symm.trans hplayed)) (hnew _)
  · exact .inl (hstate' ▸ subscriptions_teardown h.listens)
  · intro call hcall hlast hsettled
    rw [hcalled] at hcall
    rw [IsLast, hcalled, List.length_append, List.length_singleton] at hlast
    obtain hold | hmade := List.mem_append.mp hcall
    · have hlt := h.id_lt hold
      omega
    · obtain rfl := List.mem_singleton.mp hmade
      exact absurd ⟨_, by rw [hrunning]; exact List.mem_append_right _ (List.mem_singleton_self _),
        rfl⟩ hsettled
  · rw [hstate']
    exact h.emitted

/-! ### Progress arrives -/

theorem Inv.onProgress {subscription : Nat} {noteId : String} {progress : PlaybackProgress}
    (h : s.Inv) (hlive : Assoc.get s.state.subscriptions subscription = some noteId) :
    Inv { s with state := s.state.onProgress noteId progress } := by
  obtain hnone | ⟨held, call, played, path, hheld, hone, hcall, hplay, hlast, hsettled, hstarted⟩ :=
    h.listens
  · rw [hnone] at hlive
    cases hlive
  · obtain rfl : noteId = played := by
      rw [hone] at hlive
      by_cases hheld : held = subscription <;> simp_all [Assoc.get]
    have hnow : s.state.startedLast = some noteId := h.startedLast call.id noteId hstarted hlast
    refine ⟨h.obeys, h.numbered, h.runs, h.distinct, h.started, h.startedLast, h.played,
      .inr ⟨held, call, noteId, path, hheld, hone, hcall, hplay, hlast, hsettled, hstarted⟩,
      fun call' hcall' hlast' _ => ?_, fun emission hemission => ?_⟩
    · have hid : call'.id = call.id := by
        have hlast' : call'.id + 1 = s.called.length := hlast'
        have hlast : call.id + 1 = s.called.length := hlast
        omega
      obtain rfl := h.eq_of_id hcall' hcall hid
      simp only [Settled, hplay]
      exact .inl ⟨hstarted, some progress, rfl⟩
    · obtain hold | hnew := List.mem_append.mp hemission
      · exact h.emitted emission hold
      · obtain rfl := List.mem_singleton.mp hnew
        exact hnow

/-! ### A call goes on -/

/-- A call that is resumed is pending still when it awaits something else. -/
theorem Inv.pending_resume {k : PlaybackReply → PlaybackProgram Unit}
    {left : PlaybackProgram Unit × AudioPlaybackCubit} {stop : Stop PlaybackAwait String Unit}
    (h : s.Inv) (hrunning : s.running[i]? = some ⟨call, .await point k⟩)
    (hstop : left.1.stop? = some stop) :
    Pending (Lib.Isolate.settle { s with running := s.running.eraseIdx i } call left) call' ↔
      Pending s call' ∧ (call' = call → stop.suspended = true) := by
  obtain ⟨hi, htask⟩ := List.getElem?_eq_some_iff.mp hrunning
  have hperm := List.getElem_cons_eraseIdx_perm hi
  rw [htask] at hperm
  have hdistinct := (hperm.map (·.call.id)).nodup_iff.mpr h.distinct
  have hothers : ∀ task ∈ s.running.eraseIdx i, task.call ≠ call := by
    rintro task hother rfl
    exact (List.nodup_cons.mp hdistinct).1 (List.mem_map.mpr ⟨task, hother, rfl⟩)
  rw [Pending, Lib.Isolate.running_settle]
  constructor
  · rintro ⟨task, htask, rfl⟩
    obtain hother | hnew := List.mem_append.mp htask
    · exact ⟨⟨task, List.mem_of_mem_eraseIdx hother, rfl⟩,
        fun heq => absurd heq (hothers task hother)⟩
    · cases stop with
      | waits =>
        rw [(point?_of_stop? hstop).2] at hnew
        obtain rfl := List.mem_singleton.mp hnew
        exact ⟨⟨_, List.mem_of_getElem? hrunning, rfl⟩, fun _ => rfl⟩
      | ends =>
        rw [(ended?_of_stop? hstop).2] at hnew
        exact absurd hnew List.not_mem_nil
  · rintro ⟨⟨task, htask, rfl⟩, hsuspended⟩
    obtain rfl | hother := List.mem_cons.mp (hperm.mem_iff.mpr htask)
    · have hwaits := hsuspended rfl
      cases stop with
      | waits =>
        refine ⟨⟨call, left.1⟩, List.mem_append_right _ ?_, rfl⟩
        rw [(point?_of_stop? hstop).2]
        exact List.mem_singleton_self _
      | ends => cases hwaits
    · exact ⟨task, List.mem_append_left _ hother, rfl⟩

/-- The last call is the only one. -/
theorem Inv.eq_of_isLast (h : s.Inv) (hcall : call ∈ s.called) (hcall' : call' ∈ s.called)
    (hlast : IsLast s call) (hlast' : IsLast s call') : call = call' :=
  h.eq_of_id hcall hcall' (by rw [IsLast] at hlast hlast'; omega)

/-- Nothing is listened to while the last call is pending. -/
theorem Inv.subscriptions_eq_nil (h : s.Inv) (hcall : call ∈ s.called) (hlast : IsLast s call)
    (hpending : Pending s call) : s.state.subscriptions = [] := by
  obtain hnone | ⟨_, call', _, _, -, -, hcall', -, hlast', hsettled, -⟩ := h.listens
  · exact hnone
  · obtain rfl := h.eq_of_isLast hcall hcall' hlast hlast'
    exact absurd hpending hsettled

/-- What is listened to stays so while the cubit holds on to it. -/
theorem Listens.mono (h : s.Listens) (hcalled : t.called = s.called)
    (hheld : t.state.progressSubscription = s.state.progressSubscription)
    (hlive : t.state.subscriptions = s.state.subscriptions)
    (hstarted : t.state.started = s.state.started)
    (hpending : ∀ call, Pending t call → Pending s call) : t.Listens := by
  obtain hnone | ⟨held, call, noteId, path, hheld', hone, hcall, hplay, hlast, hsettled, hstarts⟩ :=
    h
  · exact .inl (hlive.trans hnone)
  · refine .inr ⟨held, call, noteId, path, hheld.trans hheld', hlive.trans hone, ?_, hplay, ?_,
      fun hpends => hsettled (hpending call hpends), ?_⟩
    · rwa [hcalled]
    · rwa [IsLast, hcalled]
    · rwa [hstarted]

/-- A call has gone on, from a point where it waited to where it has stopped. -/
structure GoesOn (s t : AudioPlayback) (call : PlaybackCall)
    (stop : Stop PlaybackAwait String Unit) : Prop where
  obeys : t.ObeysOn PlaybackSegment
  called : t.called = s.called
  mem : call ∈ s.called
  pends : Pending s call
  pending : ∀ call', Pending t call' ↔ Pending s call' ∧ (call' = call → stop.suspended = true)
  tasks : ∀ task ∈ t.running,
    task ∈ s.running ∨ task.call = call ∧ task.rest.point? = stop.point?
  distinct : (t.running.map (·.call.id)).Nodup

theorem Inv.goesOn (h : s.Inv)
    (hstep : Lib.Isolate.step AudioPlaybackCubit.perform id s (.resume i reply) = some t) :
    ∃ call point k stop, s.running[i]? = some ⟨call, .await point k⟩ ∧ GoesOn s t call stop ∧
      PlaybackSegment call (some (point, reply)) s.state stop t.state := by
  obtain ⟨hobeys, call, point, k, left, stop, hrunning, hstop, hseg, ht⟩ :=
    Lib.Isolate.obeysOn_step follows_perform h.obeys hstep
  have htask := List.mem_of_getElem? hrunning
  refine ⟨call, point, k, stop, hrunning,
    ⟨hobeys, ?_, h.runs _ htask, ⟨_, htask, rfl⟩, ?_, ?_, ?_⟩, ?_⟩
  · rw [ht, Lib.Isolate.called_settle]
  · intro call'
    rw [ht]
    exact h.pending_resume hrunning hstop
  · intro task hmem
    rw [ht, Lib.Isolate.running_settle] at hmem
    obtain hold | hnew := List.mem_append.mp hmem
    · exact .inl (List.mem_of_mem_eraseIdx hold)
    · cases stop with
      | waits =>
        obtain ⟨hpoint, hended⟩ := point?_of_stop? hstop
        rw [hended] at hnew
        obtain rfl := List.mem_singleton.mp hnew
        exact .inr ⟨rfl, hpoint⟩
      | ends =>
        rw [(ended?_of_stop? hstop).2] at hnew
        exact absurd hnew List.not_mem_nil
  · obtain ⟨hi, hget⟩ := List.getElem?_eq_some_iff.mp hrunning
    have hperm := ((List.getElem_cons_eraseIdx_perm hi).map (·.call.id)).nodup_iff.mpr h.distinct
    rw [hget] at hperm
    rw [ht, Lib.Isolate.running_settle, List.map_append]
    split_ifs
    · exact List.perm_append_comm.nodup_iff.mpr hperm
    · rw [List.map_nil, List.append_nil]
      exact (List.nodup_cons.mp hperm).2
  · rw [ht, Lib.Isolate.state_settle]
    exact hseg

section

variable {stop : Stop PlaybackAwait String Unit}

theorem GoesOn.isLast_iff (hon : GoesOn s t call stop) : IsLast t call' ↔ IsLast s call' := by
  rw [IsLast, IsLast, hon.called]

theorem GoesOn.of_pending (hon : GoesOn s t call stop) (hpending : Pending t call') :
    Pending s call' :=
  ((hon.pending call').mp hpending).1

theorem GoesOn.numbered (h : s.Inv) (hon : GoesOn s t call stop) :
    ∀ (i : Nat) (call : PlaybackCall), t.called[i]? = some call → call.id = i := by
  rw [hon.called]
  exact h.numbered

theorem GoesOn.runs (h : s.Inv) (hon : GoesOn s t call stop) :
    ∀ task ∈ t.running, task.call ∈ t.called := by
  intro task hmem
  rw [hon.called]
  obtain hold | ⟨hnew, -⟩ := hon.tasks task hmem
  · exact h.runs task hold
  · exact hnew ▸ hon.mem

/-- What has started stays known to the calls that wait to hear of it. -/
theorem GoesOn.played (h : s.Inv) (hon : GoesOn s t call stop)
    (hstarted : ∀ start ∈ s.state.started, start ∈ t.state.started)
    (hnew : ∀ value, stop.point? = some (.played (.ok value)) → ∀ noteId path,
      call.command = .play noteId path → (call.id, noteId) ∈ t.state.started) :
    ∀ task ∈ t.running, ∀ value, task.rest.point? = some (.played (.ok value)) →
      ∀ noteId path, task.call.command = .play noteId path →
        (task.call.id, noteId) ∈ t.state.started := by
  intro task hmem value hpoint noteId path hplay
  obtain hold | ⟨rfl, hsame⟩ := hon.tasks task hmem
  · exact hstarted _ (h.played task hold value hpoint noteId path hplay)
  · exact hnew value (hsame.symm.trans hpoint) noteId path hplay

/-- A call that goes on to wait for something else. -/
theorem Inv.waits (h : s.Inv) (hon : GoesOn s t call (.waits point)) (hstate : t.state = s.state)
    (hpoint : ∀ value, point ≠ .played (.ok value)) : t.Inv := by
  have hasked : asked t = asked s := by rw [asked, asked, hstate, hon.called]
  refine ⟨hon.obeys, hon.numbered h, hon.runs h, hon.distinct, ?_, ?_, ?_, ?_, ?_, ?_⟩
  · rw [hstate, hon.called]
    exact h.started
  · rw [hstate, hon.called]
    exact h.startedLast
  · refine hon.played h (by rw [hstate]; exact fun _ hs => hs) fun value hplayed => ?_
    exact absurd (Option.some.inj hplayed) (hpoint value)
  · refine h.listens.mono hon.called ?_ ?_ ?_ fun _ => hon.of_pending
    all_goals rw [hstate]
  · intro call' hcall' hlast' hsettled
    rw [hon.called] at hcall'
    have hbefore : ¬Pending s call' := fun hpends =>
      hsettled ((hon.pending call').mpr ⟨hpends, fun _ => rfl⟩)
    have hold := h.settled call' hcall' (hon.isLast_iff.mp hlast') hbefore
    unfold Settled at hold ⊢
    rwa [hstate, hasked]
  · rw [hstate]
    exact h.emitted

/-- The start of the last call succeeds. -/
theorem Inv.starts {noteId path : String} (h : s.Inv)
    (hon : GoesOn s t call (.waits (.played (.ok ())))) (hlast : IsLast s call)
    (hplay : call.command = .play noteId path)
    (hstate : t.state = s.state.recordStart call.id noteId) : t.Inv := by
  have hstarted : t.state.started = s.state.started ++ [(call.id, noteId)] := by rw [hstate]; rfl
  have hquiet := h.subscriptions_eq_nil hon.mem hlast hon.pends
  -- what has been started before is of other calls, or of this one
  have hnote : ∀ id other, (id, other) ∈ t.state.started →
      ∃ call ∈ s.called, call.id = id ∧ ∃ path, call.command = .play other path := by
    intro id other hmem
    rw [hstarted] at hmem
    obtain hold | hnew := List.mem_append.mp hmem
    · exact h.started id other hold
    · obtain ⟨rfl, rfl⟩ := Prod.mk.inj (List.mem_singleton.mp hnew)
      exact ⟨call, hon.mem, rfl, path, hplay⟩
  refine ⟨hon.obeys, hon.numbered h, hon.runs h, hon.distinct, ?_, ?_, ?_, ?_, ?_, ?_⟩
  · rw [hon.called]
    exact hnote
  · intro id other hmem hid
    obtain ⟨call', hcall', rfl, path', hplay'⟩ := hnote id other hmem
    obtain rfl := h.eq_of_isLast hon.mem hcall' hlast (hon.isLast_iff.mp hid)
    obtain ⟨rfl, -⟩ := PlaybackCommand.play.inj (hplay.symm.trans hplay')
    simp [AudioPlaybackCubit.startedLast, hstarted]
  · refine hon.played h ?_ fun _ _ played path' hplay' => ?_
    · rw [hstarted]
      exact fun start hmem => List.mem_append_left _ hmem
    · obtain ⟨rfl, -⟩ := PlaybackCommand.play.inj (hplay.symm.trans hplay')
      simp [hstarted]
  · left
    rw [hstate]
    exact hquiet
  · intro call' hcall' hlast' hsettled
    rw [hon.called] at hcall'
    obtain rfl := h.eq_of_isLast hon.mem hcall' hlast (hon.isLast_iff.mp hlast')
    exact absurd ((hon.pending call).mpr ⟨hon.pends, fun _ => rfl⟩) hsettled
  · rw [hstate]
    exact h.emitted

/-- A call that ends and leaves what has started as it was. -/
theorem Inv.ends (h : s.Inv) (hon : GoesOn s t call (.ends (.ok ())))
    (hstarted : t.state.started = s.state.started) (hemitted : t.state.emitted = s.state.emitted)
    (hlistens : t.Listens)
    (hsettled : ∀ call' ∈ s.called, IsLast s call' → ¬Pending t call' → t.Settled call') :
    t.Inv := by
  refine ⟨hon.obeys, hon.numbered h, hon.runs h, hon.distinct, ?_, ?_, ?_, hlistens, ?_, ?_⟩
  · rw [hstarted, hon.called]
    exact h.started
  · rw [AudioPlaybackCubit.startedLast, hstarted, hon.called]
    exact h.startedLast
  · exact hon.played h (by rw [hstarted]; exact fun _ hs => hs) nofun
  · intro call' hcall' hlast'
    rw [hon.called] at hcall'
    exact hsettled call' hcall' (hon.isLast_iff.mp hlast')
  · rw [hemitted]
    exact h.emitted

/-- The last call has started, and is shown. -/
theorem Inv.shows {noteId path : String} (h : s.Inv) (hon : GoesOn s t call (.ends (.ok ())))
    (hlast : IsLast s call) (hplay : call.command = .play noteId path)
    (hstarts : (call.id, noteId) ∈ s.state.started) (hstate : t.state = s.state.listen noteId) :
    t.Inv := by
  have hquiet := h.subscriptions_eq_nil hon.mem hlast hon.pends
  have hended : ¬Pending t call := fun hpends => by cases ((hon.pending call).mp hpends).2 rfl
  have hstarted : t.state.started = s.state.started := by rw [hstate]; rfl
  refine h.ends hon hstarted (by rw [hstate]; rfl) ?_ fun call' hcall' hlast' _ => ?_
  · refine .inr ⟨s.state.listens, call, noteId, path, by rw [hstate]; rfl, ?_, ?_, hplay,
      hon.isLast_iff.mpr hlast, hended, ?_⟩
    · rw [hstate, AudioPlaybackCubit.listen, AudioPlaybackCubit.emit]
      simp [hquiet]
    · rw [hon.called]
      exact hon.mem
    · rwa [hstarted]
  · obtain rfl := h.eq_of_isLast hon.mem hcall' hlast hlast'
    simp only [Settled, hplay]
    exact .inl ⟨by rwa [hstarted], none, by rw [hstate]; rfl⟩

/-- A start has failed: nothing has been asked for, or the last call is pending still. -/
theorem Inv.failed {error : String} (h : s.Inv) (hon : GoesOn s t call (.ends (.ok ())))
    (hanswers : asked s = none ∨ ∃ task ∈ s.running, IsLast s task.call ∧ task.call ≠ call)
    (hstate : t.state = s.state.emit (.error error)) : t.Inv := by
  refine h.ends hon (by rw [hstate]; rfl) (by rw [hstate]; rfl) ?_
    fun call' hcall' hlast' hended => ?_
  · refine h.listens.mono hon.called ?_ ?_ ?_ fun _ => hon.of_pending
    all_goals
      rw [hstate]
      rfl
  · obtain hnone | ⟨task, htask, hlast, hne⟩ := hanswers
    · have hasked : asked t = none := by
        rw [asked, hon.called, hstate]
        exact hnone
      unfold Settled
      split
      · exact .inr hasked
      · next hstop => exact absurd hstop (not_stop_of_asked_eq_none hnone hcall')
    · obtain rfl := h.eq_of_isLast (h.runs task htask) hcall' hlast hlast'
      exact absurd ((hon.pending task.call).mpr ⟨⟨task, htask, rfl⟩, fun heq => absurd heq hne⟩)
        hended

/-- The player has stopped before any later note is shown. -/
theorem Inv.stopped (h : s.Inv) (hon : GoesOn s t call (.ends (.ok ())))
    (hstop : call.command = .stop)
    (hanswers : ∀ later ∈ s.called, call.id < later.id →
      later.id ∈ s.state.started.map Prod.fst → Pending s later)
    (hstate : t.state = s.state.emit .idle) : t.Inv := by
  refine h.ends hon (by rw [hstate]; rfl) (by rw [hstate]; rfl) ?_
    fun call' hcall' hlast' hended => ?_
  · refine h.listens.mono hon.called ?_ ?_ ?_ fun _ => hon.of_pending
    all_goals
      rw [hstate]
      rfl
  · have hidle : Shows t.state.state none := by rw [hstate]; rfl
    by_cases hsame : call' = call
    · simp only [Settled, hsame, hstop]
      exact hidle
    · have hbefore : ¬Pending s call' := fun hpends =>
        hended ((hon.pending call').mpr ⟨hpends, fun heq => absurd heq hsame⟩)
      have hold := h.settled call' hcall' hlast' hbefore
      unfold Settled at hold ⊢
      split
      · next noteId path hplay =>
        rw [hplay] at hold
        obtain ⟨hstarts, -⟩ | hnone := hold
        · -- a later note is shown
          have hlt := h.id_lt hon.mem
          have hne : call.id ≠ call'.id := fun hid => hsame (h.eq_of_id hcall' hon.mem hid.symm)
          have hlater : call.id < call'.id := by
            rw [IsLast] at hlast'
            omega
          exact absurd (hanswers call' hcall' hlater (List.mem_map_of_mem hstarts)) hbefore
        · exact absurd hstop (not_stop_of_asked_eq_none hnone hon.mem)
      · exact hidle

theorem Inv.resume (h : s.Inv) (hin : InOrder s (.resume i reply))
    (hstep : Lib.Isolate.step AudioPlaybackCubit.perform id s (.resume i reply) = some t) :
    t.Inv := by
  obtain ⟨call, point, k, stop, hrunning, hon, hseg⟩ := h.goesOn hstep
  have hanswers : Answers s call point reply := hin _ hrunning point rfl
  generalize ht : t.state = u at hseg
  cases hseg with
  | loaded => exact h.waits hon ht nofun
  | fails => exact h.waits hon ht nofun
  | starts _ _ noteId path hplay => exact h.starts hon hanswers hplay ht
  | listens _ value _ noteId path hplay =>
    have hstarts := h.played _ (List.mem_of_getElem? hrunning) value rfl noteId path hplay
    exact h.shows hon hanswers hplay hstarts ht
  | failed => exact h.failed hon hanswers ht
  | stopped _ _ hstop => exact h.stopped hon hstop hanswers ht

end

theorem inv_step {e : PlaybackEvent} (h : s.Inv) (hin : InOrder s e) (hstep : step s e = some t) :
    t.Inv := by
  cases e with
  | call command => exact h.make hstep
  | resume i reply => exact h.resume hin hstep
  | progress subscription progress =>
    obtain ⟨noteId, hlive, hstep⟩ := Option.bind_eq_some_iff.mp hstep
    have hemitted : Inv { s with state := s.state.onProgress noteId progress } :=
      h.onProgress hlive
    dsimp only at hstep
    split_ifs at hstep
    · exact hemitted.make hstep
    · obtain rfl := Option.some.inj hstep
      exact hemitted

end

/-- A run whose answers arrive in order follows its last command, in every state it visits. -/
theorem followsLastCommand_of_inOrder {events : List PlaybackEvent}
    (h : EachStep step InOrder start events) : Always step FollowsLastCommand start events :=
  .of_invariant (fun _ _ _ h hin hstep => inv_step h hin hstep) (fun _ h => h.followsLastCommand)
    inv_start h

/-- `a` is played, and `b` before the player has stopped; what is heard of it is in order. -/
def switchesNotes : List PlaybackEvent :=
  [.call (.play "a" "/a"), .resume 0 (.ok ()), .resume 0 (.ok ()), .resume 0 (.ok ()),
    .progress 0 ⟨1, 2⟩, .call .stop, .call (.play "b" "/b"), .resume 0 (.ok ()), .resume 0 (.ok ()),
    .resume 0 (.ok ()), .resume 0 (.ok ()), .progress 1 ⟨1, 2⟩]

theorem followsLastCommand_switchesNotes : Always step FollowsLastCommand start switchesNotes :=
  followsLastCommand_of_inOrder (by decide +kernel)

/-- `b` is played while `a` is still loading. -/
def playsAtOnce : List PlaybackEvent :=
  [.call (.play "a" "/a"), .call (.play "b" "/b"), .resume 0 (.ok ()), .resume 0 (.ok ()),
    .resume 0 (.ok ()), .resume 0 (.ok ()), .resume 0 (.ok ()), .resume 0 (.ok ())]

/-- Two subscriptions stay live. -/
theorem not_followsLastCommand :
    ¬∀ events, Always step FollowsLastCommand start events := by
  intro h
  have hruns : ((run step start playsAtOnce).any fun s =>
      s.running.isEmpty && decide (s.state.subscriptions.length = 2)) = true := by decide +kernel
  obtain ⟨s, hrun, hs⟩ := (Option.any_eq_true _ _).mp hruns
  obtain ⟨hidle, htwo⟩ := Bool.and_eq_true_iff.mp hs
  have hone := ((h playsAtOnce).last hrun).subscriptions (List.isEmpty_iff.mp hidle)
  rw [of_decide_eq_true htwo] at hone
  exact absurd hone (by decide)

end AudioPlayback

end Duet
