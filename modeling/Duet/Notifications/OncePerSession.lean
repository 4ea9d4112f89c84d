import Duet.Notifications.InboxBridge
import Mathlib.Data.List.Nodup

/-!
# Once per session

A message is shown once while its user is signed in, as far as the ids that are taken on tell: they
are forgotten whenever a user id is emitted, while the calls that run go on.

## Main results

* `inv_step` — whatever a snapshot has brought since the user changed is taken on or was brought
  before the last emission, and what is still to be shown for the user has not been shown.
* `notifies_of_orderly` — in a run that switches users between the calls, and where no message comes
  again after the same user id has been emitted again, each message is shown once, to its own user,
  and is left unread when it asks for an action.
-/

namespace Duet

open Lib Async

/-- The ids shown since the user id has changed. -/
def InboxNotificationBridge.shownNow (s : InboxNotificationBridge) : List String :=
  (s.shown.filter fun n => n.session = s.session).map (·.message.id)

/-- A message is left to be shown or to be marked read. -/
def ShowAwait.left (point : ShowAwait) : Bool := point.toMark?.isSome || !point.toShow.isEmpty

namespace InboxBridge

/-- The ids that are still to be shown for the user. -/
def pending (s : InboxBridge) (uid : String) : List String :=
  s.collect fun call point => if call.uid = uid then point.toShow.map (·.id) else []

/-- The users whose calls have something left to do. -/
def busy (s : InboxBridge) : List String :=
  s.collect fun call point => if point.left then [call.uid] else []

/-- What the bridge is for: one notification of each message while the user id stays the same, for
the user it is addressed to, and no message marked read that asks for an action. -/
structure Notifies (s : InboxBridge) : Prop where
  once : (s.state.shown.map fun n => (n.session, n.message.id)).Nodup
  own : ∀ n ∈ s.state.shown ++ s.state.marked, n.user = some n.uid
  unread : ∀ n ∈ s.state.marked, n.message.requiresAction = false

/-- The ids that snapshots have brought since the user id changed: before it was emitted last, and
since then. -/
structure Brought where
  before : List String
  since : List String

/-- A snapshot counts when it is of the inbox that is listened to. -/
def Brought.note (k : Brought) (s : InboxBridge) (event : BridgeEvent) (_ : InboxBridge) : Brought :=
  match event with
  | .userId uid => if uid = s.state.user then ⟨k.before ++ k.since, []⟩ else ⟨[], []⟩
  | .snapshot listen messages =>
    if s.state.inboxSubscription.map Prod.fst = some listen then
      ⟨k.before, k.since ++ messages.map (·.id)⟩
    else k
  | .resume _ _ => k

/-- Another user id is emitted only when no call has anything left to do; and after the same one has
been emitted again, no message comes that has come before. -/
def Orderly (s : InboxBridge × Brought) : BridgeEvent → Prop
  | .userId uid => uid = s.1.state.user ∨ s.1.busy = []
  | .snapshot listen messages => s.1.state.inboxSubscription.map Prod.fst = some listen →
      ∀ message ∈ messages, message.id ∉ s.2.before
  | .resume _ _ => True

/-- What is still to be shown for a user is there once; for the present user, it has not been shown.
Calls of others have nothing left to do. -/
structure Inv (s : InboxBridge) (k : Brought) : Prop where
  obeys : s.ObeysOn ShowSegment
  listensTo : s.state.inboxSubscription.map Prod.snd = s.state.user
  past : ∀ n ∈ s.state.shown, n.session ≤ s.state.session
  mine : ∀ uid ∈ s.busy, s.state.user = some uid
  taken : k.since ⊆ s.state.shownIds
  shown : s.state.shownNow ⊆ k.before ++ k.since
  toShow : ∀ uid, s.pending uid ⊆ k.before ++ k.since
  apart : ∀ uid, (s.pending uid).Nodup
  unshown : ∀ uid, s.state.user = some uid → ∀ id ∈ s.pending uid, id ∉ s.state.shownNow
  notifies : s.Notifies

variable {s t : InboxBridge} {k : Brought} {call : ShowCall} {point : ShowAwait}
  {reply : ShowReply}

theorem inv_start : Inv start ⟨[], []⟩ where
  obeys := nofun
  listensTo := rfl
  past := nofun
  mine := nofun
  taken := nofun
  shown := nofun
  toShow := nofun
  apart _ := .nil
  unshown := nofun
  notifies := ⟨.nil, nofun, nofun⟩

/-- Whoever has messages to be shown has calls with something left to do. -/
theorem mem_busy_of_mem_pending {uid id : String} (h : id ∈ s.pending uid) : uid ∈ s.busy := by
  obtain ⟨task, htask, hid⟩ := List.mem_flatMap.mp h
  refine List.mem_flatMap.mpr ⟨task, htask, ?_⟩
  cases hpoint : task.rest.point? with
  | none => simp [hpoint] at hid
  | some point =>
    simp only [hpoint, Option.elim_some] at hid ⊢
    split_ifs at hid with huid
    · have hshow : point.toShow ≠ [] := fun hnil => by simp [hnil] at hid
      simp [ShowAwait.left, hshow, huid]
    · cases hid

/-! ## A user id -/

theorem Inv.onUserIdChanged (h : s.Inv k) {uid : Option String}
    (horderly : uid = s.state.user ∨ s.busy = []) :
    Inv { s with state := s.state.onUserIdChanged uid } (k.note s (.userId uid) t) := by
  have hlistens : (s.state.onUserIdChanged uid).inboxSubscription.map Prod.snd = uid := by
    cases uid <;> rfl
  have hpast : ∀ n ∈ s.state.shown, n.session ≤ (s.state.onUserIdChanged uid).session := by
    intro n hn
    have := h.past n hn
    simp only [InboxNotificationBridge.onUserIdChanged]
    split_ifs <;> omega
  have hnotifies : Notifies { s with state := s.state.onUserIdChanged uid } :=
    ⟨h.notifies.once, h.notifies.own, h.notifies.unread⟩
  by_cases hsame : uid = s.state.user
  · -- what has been brought is remembered, although the ids are forgotten
    have hnow : (s.state.onUserIdChanged uid).shownNow = s.state.shownNow := by
      simp [InboxNotificationBridge.onUserIdChanged, InboxNotificationBridge.shownNow, hsame]
    simp only [Brought.note, if_pos hsame]
    refine ⟨h.obeys, hlistens, hpast, fun u hu => hsame.trans (h.mine u hu), List.nil_subset _, ?_,
      fun u => ?_, h.apart, fun u huser id hid => ?_, hnotifies⟩
    · rw [hnow, List.append_nil]
      exact h.shown
    · rw [List.append_nil]
      exact h.toShow u
    · rw [hnow]
      exact h.unshown u (hsame.symm.trans huser) id hid
  · -- nothing has been shown in a new session, and nothing is left to be shown
    have hidle : s.busy = [] := horderly.resolve_left hsame
    have hnow : (s.state.onUserIdChanged uid).shownNow = [] := by
      simp only [InboxNotificationBridge.onUserIdChanged, InboxNotificationBridge.shownNow,
        if_neg hsame, List.map_eq_nil_iff, List.filter_eq_nil_iff, decide_eq_true_eq]
      intro n hn
      have := h.past n hn
      omega
    have hnone : ∀ u id, id ∉ s.pending u := fun u id hid => by
      have hbusy := mem_busy_of_mem_pending hid
      rw [hidle] at hbusy
      cases hbusy
    simp only [Brought.note, if_neg hsame]
    refine ⟨h.obeys, hlistens, hpast, fun u hu => ?_, List.nil_subset _, ?_,
      fun u id hid => absurd hid (hnone u id), h.apart, fun u _ id hid => absurd hid (hnone u id),
      hnotifies⟩
    · have hbusy : u ∈ s.busy := hu
      rw [hidle] at hbusy
      cases hbusy
    · rw [hnow]
      exact List.nil_subset _

/-! ## A snapshot -/

/-- What is taken on is new, and each id of it is there once. -/
theorem takeOn_fresh (shownIds : List String) (messages : List UserMessage) :
    ((InboxNotificationBridge.takeOn shownIds messages).1.map (·.id)).Nodup ∧
      ∀ message ∈ (InboxNotificationBridge.takeOn shownIds messages).1,
        message ∈ messages ∧ message.id ∉ shownIds := by
  induction messages generalizing shownIds with
  | nil => exact ⟨.nil, nofun⟩
  | cons message rest ih =>
    rw [InboxNotificationBridge.takeOn]
    split_ifs with hold
    · obtain ⟨hnodup, hnew⟩ := ih shownIds
      exact ⟨hnodup, fun m hm => ⟨List.mem_cons_of_mem _ (hnew m hm).1, (hnew m hm).2⟩⟩
    · obtain ⟨hnodup, hnew⟩ := ih (message.id :: shownIds)
      refine ⟨List.nodup_cons.mpr ⟨fun hmem => ?_, hnodup⟩, fun m hm => ?_⟩
      · obtain ⟨m, hm, hid⟩ := List.mem_map.mp hmem
        exact (hnew m hm).2 (hid ▸ List.mem_cons_self)
      · obtain rfl | hm := List.mem_cons.mp hm
        · exact ⟨List.mem_cons_self, hold⟩
        · exact ⟨List.mem_cons_of_mem _ (hnew m hm).1,
            fun hmem => (hnew m hm).2 (List.mem_cons_of_mem _ hmem)⟩

/-- Whatever comes is taken on. -/
theorem subset_takeOn (shownIds : List String) (messages : List UserMessage) :
    shownIds ++ messages.map (·.id) ⊆ (InboxNotificationBridge.takeOn shownIds messages).2 := by
  induction messages generalizing shownIds with
  | nil => simp [InboxNotificationBridge.takeOn]
  | cons message rest ih =>
    rw [InboxNotificationBridge.takeOn]
    split_ifs with hold
    · refine fun id hid => ih shownIds ?_
      obtain hid | hid := List.mem_append.mp hid
      · exact List.mem_append_left _ hid
      · obtain rfl | hid := List.mem_cons.mp hid
        · exact List.mem_append_left _ hold
        · exact List.mem_append_right _ hid
    · refine fun id hid => ih (message.id :: shownIds) ?_
      obtain hid | hid := List.mem_append.mp hid
      · exact List.mem_append_left _ (List.mem_cons_of_mem _ hid)
      · obtain rfl | hid := List.mem_cons.mp hid
        · exact List.mem_append_left _ List.mem_cons_self
        · exact List.mem_append_right _ hid

/-- What a snapshot adds to what is to be shown. -/
theorem pending_call {left : ShowProgram Unit × InboxNotificationBridge}
    {stop : Stop ShowAwait String Unit} (hstop : left.1.stop? = some stop)
    (hseg : ShowSegment call none s.state stop left.2) (uid : String) :
    pending (Lib.Isolate.settle { s with called := s.called ++ [call] } call left) uid =
      s.pending uid ++ if call.uid = uid then
        (InboxNotificationBridge.takeOn s.state.shownIds call.messages).1.map (·.id) else [] := by
  rw [pending, Lib.Isolate.collect_settle hstop]
  congr 1
  generalize left.2 = u at hseg
  cases hseg with
  | nothing _ hnone => simp [Stop.point?, hnone]
  | takesOn => rfl

/-- Only the call of the snapshot may have got something to do. -/
theorem mem_busy_call {left : ShowProgram Unit × InboxNotificationBridge}
    {stop : Stop ShowAwait String Unit} (hstop : left.1.stop? = some stop) {uid : String}
    (h : uid ∈ busy (Lib.Isolate.settle { s with called := s.called ++ [call] } call left)) :
    uid ∈ s.busy ∨ uid = call.uid := by
  rw [busy, Lib.Isolate.collect_settle hstop, List.mem_append] at h
  refine h.imp_right fun h => ?_
  cases stop with
  | waits point =>
    simp only [Stop.point?, Option.elim_some] at h
    split_ifs at h
    · exact List.mem_singleton.mp h
    · cases h
  | ends => cases h

theorem Inv.snapshot (h : s.Inv k) (huser : s.state.user = some call.uid)
    (hnew : ∀ message ∈ call.messages, message.id ∉ k.before)
    (hstep : Lib.Isolate.step InboxNotificationBridge.showUnshown id s (.call call) = some t) :
    t.Inv ⟨k.before, k.since ++ call.messages.map (·.id)⟩ := by
  obtain ⟨hobeys, left, stop, hstop, hseg, rfl⟩ :=
    Lib.Isolate.obeysOn_step InboxNotificationBridge.follows_showUnshown h.obeys hstep
  obtain ⟨hnodup, hfresh⟩ := takeOn_fresh s.state.shownIds call.messages
  have hstate : left.2 = { s.state with
      shownIds := (InboxNotificationBridge.takeOn s.state.shownIds call.messages).2 } := by
    generalize left.2 = u at hseg
    cases hseg <;> rfl
  have hpending := pending_call hstop hseg
  -- a message that is taken on has not come since the user changed
  have hunseen : ∀ message ∈ (InboxNotificationBridge.takeOn s.state.shownIds call.messages).1,
      message.id ∉ k.before ++ k.since := by
    intro message hmessage hmem
    obtain ⟨hbrought, hnot⟩ := hfresh message hmessage
    obtain hbefore | hsince := List.mem_append.mp hmem
    · exact hnew message hbrought hbefore
    · exact hnot (h.taken hsince)
  have hgrows : k.before ++ k.since ⊆ k.before ++ (k.since ++ call.messages.map (·.id)) := by
    rw [← List.append_assoc]
    exact List.subset_append_left _ _
  refine ⟨hobeys, ?_, ?_, fun uid huid => ?_, ?_, ?_, fun uid id hid => ?_, fun uid => ?_,
    fun uid huid id hid => ?_, ?_⟩
  · rw [Lib.Isolate.state_settle, hstate]
    exact h.listensTo
  · rw [Lib.Isolate.state_settle, hstate]
    exact h.past
  · rw [Lib.Isolate.state_settle, hstate]
    obtain hold | rfl := mem_busy_call hstop huid
    · exact h.mine uid hold
    · exact huser
  · rw [Lib.Isolate.state_settle, hstate]
    exact fun id hid => subset_takeOn s.state.shownIds call.messages
      (List.mem_append.mpr ((List.mem_append.mp hid).imp_left fun hid => h.taken hid))
  · rw [Lib.Isolate.state_settle, hstate]
    exact List.Subset.trans h.shown hgrows
  · rw [hpending, List.mem_append] at hid
    obtain hold | hid := hid
    · exact hgrows (h.toShow uid hold)
    · split_ifs at hid
      · obtain ⟨message, hmessage, rfl⟩ := List.mem_map.mp hid
        exact List.mem_append_right _ (List.mem_append_right _
          (List.mem_map_of_mem (hfresh message hmessage).1))
      · cases hid
  · rw [hpending]
    split_ifs with huid
    · refine List.nodup_append.mpr ⟨h.apart uid, hnodup, fun id hold id' hid' heq => ?_⟩
      obtain ⟨message, hmessage, rfl⟩ := List.mem_map.mp hid'
      exact hunseen message hmessage (heq ▸ h.toShow uid hold)
    · rw [List.append_nil]
      exact h.apart uid
  · rw [Lib.Isolate.state_settle, hstate] at huid ⊢
    rw [hpending, List.mem_append] at hid
    obtain hold | hid := hid
    · exact h.unshown uid huid id hold
    · split_ifs at hid
      · obtain ⟨message, hmessage, rfl⟩ := List.mem_map.mp hid
        exact fun hshown => hunseen message hmessage (h.shown hshown)
      · cases hid
  · constructor
    all_goals rw [Lib.Isolate.state_settle, hstate]
    · exact h.notifies.once
    · exact h.notifies.own
    · exact h.notifies.unread

/-! ## A call that goes on -/

/-- The ids of messages that are for the user. -/
def idsFor (call : ShowCall) (messages : List UserMessage) (uid : String) : List String :=
  if call.uid = uid then messages.map (·.id) else []

/-- What is to be shown before and after a call goes on: the others' messages stay. -/
theorem pending_resume {i : Nat} {k : ShowReply → ShowProgram Unit}
    {left : ShowProgram Unit × InboxNotificationBridge} {stop : Stop ShowAwait String Unit}
    (hrunning : s.running[i]? = some ⟨call, .await point k⟩) (hstop : left.1.stop? = some stop)
    (uid : String) : ∃ others : List String,
      (s.pending uid).Perm (idsFor call point.toShow uid ++ others) ∧
      (pending (Lib.Isolate.settle { s with running := s.running.eraseIdx i } call left) uid).Perm
        (idsFor call (stop.point?.elim [] ShowAwait.toShow) uid ++ others) := by
  refine ⟨_, Lib.Isolate.collect_perm_eraseIdx hrunning _, ?_⟩
  rw [pending, Lib.Isolate.collect_settle hstop]
  refine List.perm_append_comm.trans (.of_eq ?_)
  congr 1
  cases stop <;> simp [idsFor, Stop.point?]

theorem shownNow_showLocal (u : InboxNotificationBridge) (uid : String) (message : UserMessage) :
    (u.showLocal uid message).shownNow = u.shownNow ++ [message.id] := by
  have hnotice : (u.notice uid message).session = u.session := rfl
  rw [InboxNotificationBridge.shownNow, InboxNotificationBridge.showLocal, List.filter_append,
    List.map_append, List.filter_singleton, decide_eq_true hnotice]
  rfl

/-- A call that goes on marks a message read, shows one, or neither; what it has left to show is left
of what it had. -/
inductive Deed (call : ShowCall) (point : ShowAwait) (u v : InboxNotificationBridge)
    (rest : List UserMessage) : Prop where
  | none : v = u → rest.Sublist point.toShow → Deed call point u v rest
  | marks (message : UserMessage) : point.left = true → message.requiresAction = false →
    v = u.markRead call.uid message → rest.Sublist point.toShow → Deed call point u v rest
  | shows (message : UserMessage) : point.left = true → v = u.showLocal call.uid message →
    point.toShow = message :: rest → Deed call point u v rest

theorem deed_of_segment {u v : InboxNotificationBridge} {stop : Stop ShowAwait String Unit}
    (hseg : ShowSegment call (some (point, reply)) u stop v) :
    Deed call point u v (stop.point?.elim [] ShowAwait.toShow) := by
  cases hseg with
  | noManager => exact .none rfl (List.nil_sublist _)
  | marks _ _ _ message rest hpoint hmark =>
    subst hpoint
    have haction : message.requiresAction = false := by
      by_contra haction
      simp [ShowAwait.toMark?, haction] at hmark
    exact .marks message (by simp [ShowAwait.left, hmark]) haction rfl (.refl _)
  | shows _ _ _ message rest _ _ hshow =>
    exact .shows message (by simp [ShowAwait.left, hshow]) rfl hshow
  | ended _ _ _ _ hshow => exact .none rfl (List.nil_sublist _)

section

variable {u v : InboxNotificationBridge} {rest : List UserMessage}

theorem Deed.sublist (h : Deed call point u v rest) : rest.Sublist point.toShow := by
  cases h with
  | none _ hleft => exact hleft
  | marks _ _ _ _ hleft => exact hleft
  | shows message _ _ hshow =>
    rw [hshow]
    exact List.sublist_cons_self _ _

theorem Deed.user_eq (h : Deed call point u v rest) : v.user = u.user := by
  cases h with
  | none hv | marks _ _ _ hv | shows _ _ hv =>
    subst hv
    rfl

theorem Deed.subscription_eq (h : Deed call point u v rest) :
    v.inboxSubscription = u.inboxSubscription := by
  cases h with
  | none hv | marks _ _ _ hv | shows _ _ hv =>
    subst hv
    rfl

theorem Deed.shownIds_eq (h : Deed call point u v rest) : v.shownIds = u.shownIds := by
  cases h with
  | none hv | marks _ _ _ hv | shows _ _ hv =>
    subst hv
    rfl

theorem Deed.shownNow_subset (h : Deed call point u v rest) :
    v.shownNow ⊆ u.shownNow ++ point.toShow.map (·.id) := by
  cases h with
  | none hv | marks _ _ _ hv =>
    rw [hv]
    exact List.subset_append_left _ _
  | shows message _ hv hshow =>
    rw [hv, shownNow_showLocal, hshow]
    exact fun id hid => List.mem_append.mpr ((List.mem_append.mp hid).imp_right fun hid => by
      rw [List.map_cons, List.mem_singleton.mp hid]
      exact List.mem_cons_self)

end

/-- Only a call that has something left to do waits again. -/
theorem left_of_segment {u v : InboxNotificationBridge} {stop : Stop ShowAwait String Unit}
    {next : ShowAwait} (hseg : ShowSegment call (some (point, reply)) u stop v)
    (hnext : stop.point? = some next) : point.left = true := by
  cases hseg with
  | noManager | ended => cases hnext
  | marks _ _ _ message rest _ hmark => simp [ShowAwait.left, hmark]
  | shows _ _ _ message rest _ _ hshow => simp [ShowAwait.left, hshow]

/-- No call gets something to do by going on. -/
theorem mem_busy_resume {i : Nat} {k : ShowReply → ShowProgram Unit}
    {left : ShowProgram Unit × InboxNotificationBridge} {stop : Stop ShowAwait String Unit}
    (hrunning : s.running[i]? = some ⟨call, .await point k⟩) (hstop : left.1.stop? = some stop)
    (hseg : ShowSegment call (some (point, reply)) s.state stop left.2) (uid : String)
    (h : uid ∈ busy (Lib.Isolate.settle { s with running := s.running.eraseIdx i } call left)) :
    uid ∈ s.busy := by
  have hperm := Lib.Isolate.collect_perm_eraseIdx hrunning
    fun call point => if point.left then [call.uid] else []
  rw [busy, Lib.Isolate.collect_settle hstop, List.mem_append] at h
  refine hperm.mem_iff.mpr (List.mem_append.mpr ?_)
  obtain hother | hnext := h
  · exact .inr hother
  · cases hpoint : stop.point? with
    | none => simp [hpoint] at hnext
    | some next =>
      rw [hpoint, Option.elim_some] at hnext
      rw [if_pos (left_of_segment hseg hpoint)]
      split_ifs at hnext
      · exact .inl hnext
      · cases hnext

theorem mem_shown_showLocal {u : InboxNotificationBridge} {uid : String} {message : UserMessage}
    {n : Notice} (h : n ∈ (u.showLocal uid message).shown) :
    n ∈ u.shown ∨ n = u.notice uid message :=
  (List.mem_append.mp h).imp_right List.mem_singleton.mp

/-- What is shown for the user is new. -/
theorem Notifies.showLocal {message : UserMessage} (h : s.Notifies)
    (huser : s.state.user = some call.uid)
    (hnew : message.id ∉ s.state.shownNow) (ht : t.state = s.state.showLocal call.uid message) :
    t.Notifies := by
  constructor
  all_goals rw [ht]
  · rw [InboxNotificationBridge.showLocal, List.map_append, List.nodup_append]
    refine ⟨h.once, List.nodup_singleton _, fun p hold q hq heq => hnew ?_⟩
    obtain rfl := List.mem_singleton.mp hq
    obtain ⟨n, hn, rfl⟩ := List.mem_map.mp hold
    obtain ⟨hsession, hid⟩ := Prod.mk.inj heq
    exact List.mem_map.mpr ⟨n, List.mem_filter.mpr ⟨hn, decide_eq_true hsession⟩, hid⟩
  · intro n hn
    obtain hshown | hmarked := List.mem_append.mp hn
    · obtain hold | rfl := mem_shown_showLocal hshown
      · exact h.own n (List.mem_append_left _ hold)
      · exact huser
    · exact h.own n (List.mem_append_right _ hmarked)
  · exact h.unread

/-- What is marked read for the user asks for no action. -/
theorem Notifies.markRead {message : UserMessage} (h : s.Notifies)
    (huser : s.state.user = some call.uid) (haction : message.requiresAction = false)
    (ht : t.state = s.state.markRead call.uid message) : t.Notifies := by
  constructor
  all_goals rw [ht]
  · exact h.once
  · intro n hn
    obtain hshown | hmarked := List.mem_append.mp hn
    · exact h.own n (List.mem_append_left _ hshown)
    · obtain hold | hnew := List.mem_append.mp hmarked
      · exact h.own n (List.mem_append_right _ hold)
      · obtain rfl := List.mem_singleton.mp hnew
        exact huser
  · intro n hn
    obtain hold | hnew := List.mem_append.mp hn
    · exact h.unread n hold
    · obtain rfl := List.mem_singleton.mp hnew
      exact haction

theorem Inv.resume {i : Nat} (h : s.Inv k)
    (hstep : Lib.Isolate.step InboxNotificationBridge.showUnshown id s (.resume i reply) = some t) :
    t.Inv k := by
  obtain ⟨hobeys, call, point, rest, left, stop, hrunning, hstop, hseg, ht⟩ :=
    Lib.Isolate.obeysOn_step InboxNotificationBridge.follows_showUnshown h.obeys hstep
  have hpending := pending_resume hrunning hstop
  have hbusy := mem_busy_resume hrunning hstop hseg
  have hstate : t.state = left.2 := by rw [ht, Lib.Isolate.state_settle]
  have hdeed := deed_of_segment hseg
  rw [← hstate] at hdeed
  rw [← ht] at hpending hbusy
  -- whoever's call goes on is signed in
  have huser : point.left = true → s.state.user = some call.uid := by
    intro hleft
    refine h.mine call.uid ((Lib.Isolate.collect_perm_eraseIdx hrunning _).mem_iff.mpr ?_)
    rw [if_pos hleft]
    exact List.mem_append_left _ List.mem_cons_self
  have hmessages : ∀ id ∈ point.toShow.map (·.id), id ∈ s.pending call.uid := by
    intro id hid
    obtain ⟨others, hbefore, -⟩ := hpending call.uid
    exact hbefore.mem_iff.mpr (List.mem_append_left _ (by rwa [idsFor, if_pos rfl]))
  generalize stop.point?.elim [] ShowAwait.toShow = rest at hdeed hpending
  have hsub : ∀ uid, (idsFor call rest uid).Sublist (idsFor call point.toShow uid) := by
    intro uid
    unfold idsFor
    split_ifs
    · exact hdeed.sublist.map _
    · exact .refl _
  have hless : ∀ uid, ∀ id ∈ t.pending uid, id ∈ s.pending uid := by
    intro uid id hid
    obtain ⟨others, hbefore, hafter⟩ := hpending uid
    exact hbefore.mem_iff.mpr ((List.Sublist.append_right (hsub uid) others).mem
      (hafter.mem_iff.mp hid))
  refine ⟨hobeys, ?_, fun n hn => ?_, fun uid huid => ?_, ?_, fun id hid => ?_,
    fun uid id hid => h.toShow uid (hless uid id hid), fun uid => ?_, fun uid huid id hid => ?_, ?_⟩
  · rw [hdeed.subscription_eq, hdeed.user_eq]
    exact h.listensTo
  · cases hdeed with
    | none hv | marks _ _ _ hv =>
      rw [hv] at hn ⊢
      exact h.past n hn
    | shows message _ hv =>
      rw [hv] at hn ⊢
      obtain hold | rfl := mem_shown_showLocal hn
      · exact h.past n hold
      · exact Nat.le_refl _
  · rw [hdeed.user_eq]
    exact h.mine uid (hbusy uid huid)
  · rw [hdeed.shownIds_eq]
    exact h.taken
  · obtain hold | hnew := List.mem_append.mp (hdeed.shownNow_subset hid)
    · exact h.shown hold
    · exact h.toShow call.uid (hmessages id hnew)
  · obtain ⟨others, hbefore, hafter⟩ := hpending uid
    rw [hafter.nodup_iff]
    exact (List.Sublist.append_right (hsub uid) others).nodup (hbefore.nodup_iff.mp (h.apart uid))
  · rw [hdeed.user_eq] at huid
    have hold := h.unshown uid huid id (hless uid id hid)
    cases hdeed with
    | none hv | marks _ _ _ hv => rwa [hv]
    | shows message hleft hv hshow =>
      rw [hv, shownNow_showLocal, List.mem_append, List.mem_singleton, not_or]
      refine ⟨hold, ?_⟩
      rintro rfl
      obtain rfl := Option.some.inj (huid.symm.trans (huser hleft))
      obtain ⟨others, hbefore, hafter⟩ := hpending call.uid
      have hnodup := hbefore.nodup_iff.mp (h.apart call.uid)
      simp only [idsFor, if_true, hshow, List.map_cons, List.cons_append, List.nodup_cons] at hnodup
      have hin := hafter.mem_iff.mp hid
      simp only [idsFor, if_true] at hin
      exact hnodup.1 hin
  · cases hdeed with
    | none hv => exact ⟨hv ▸ h.notifies.once, hv ▸ h.notifies.own, hv ▸ h.notifies.unread⟩
    | marks message hleft haction hv => exact h.notifies.markRead (huser hleft) haction hv
    | shows message hleft hv hshow =>
      refine h.notifies.showLocal (huser hleft) (h.unshown call.uid (huser hleft) _ ?_) hv
      exact hmessages _ (by simp [hshow])

/-! ## Runs -/

theorem inv_step {event : BridgeEvent} (h : s.Inv k) (horderly : Orderly (s, k) event)
    (hstep : step s event = some t) : t.Inv (k.note s event t) := by
  cases event with
  | userId uid =>
    obtain rfl := Option.some.inj hstep
    exact h.onUserIdChanged horderly
  | snapshot listen messages =>
    have hlistens := h.listensTo
    simp only [Orderly] at horderly
    simp only [step] at hstep
    simp only [Brought.note]
    cases hsubscription : s.state.inboxSubscription with
    | none =>
      rw [hsubscription] at hstep
      obtain rfl := Option.some.inj hstep
      exact h
    | some inbox =>
      obtain ⟨current, uid⟩ := inbox
      simp only [hsubscription] at hstep hlistens horderly
      simp only [Option.map_some, Option.some.injEq] at hlistens horderly ⊢
      by_cases hlisten : listen = current
      · rw [if_pos hlisten] at hstep
        rw [if_pos hlisten.symm]
        exact h.snapshot hlistens.symm (horderly hlisten.symm) hstep
      · rw [if_neg hlisten] at hstep
        rw [if_neg (Ne.symm hlisten)]
        obtain rfl := Option.some.inj hstep
        exact h
  | resume i reply => exact h.resume hstep

/-- In a run that switches users between the calls, and where no message comes again after its user
id has been emitted again, each message is shown once, to its user, and is left unread when it asks
for an action. -/
theorem notifies_of_orderly {events : List BridgeEvent}
    (h : EachStep (recorded step Brought.note) Orderly (start, ⟨[], []⟩) events) :
    Always step Notifies start events :=
  Always.of_recorded (I := Inv) (fun _ _ _ _ hinv horderly hstep => inv_step hinv horderly hstep)
    (fun _ _ hinv => hinv.notifies) inv_start h

instance (s : InboxBridge × Brought) (event : BridgeEvent) : Decidable (Orderly s event) := by
  unfold Orderly
  split <;> infer_instance

/-! ### Two users -/

def invite : UserMessage := ⟨"m1", "Jane invited you to collaborate", "Join a shared piece", true⟩

def nudge : UserMessage := ⟨"m2", "Jane added notes", "Open the sheet to see what changed.", false⟩

/-- An invite and a nudge are shown, the nudge is marked read, and another user signs in; her id is
emitted again after the nudge of hers has left the inbox. -/
def signedInTwice : List BridgeEvent :=
  [.userId (some "sam"), .snapshot 0 [invite, nudge], .resume 0 (.ok ()), .resume 0 (.ok ()),
    .snapshot 0 [invite, nudge], .resume 0 (.ok ()), .resume 0 (.ok ()), .userId (some "ann"),
    .snapshot 0 [invite], .snapshot 1 [nudge], .resume 0 (.ok ()), .resume 0 (.ok ()),
    .resume 0 (.ok ()), .userId (some "ann"), .snapshot 2 [invite], .resume 0 (.ok ()),
    .resume 0 (.ok ())]

theorem notifies_of_orderly_signedInTwice : Always step Notifies start signedInTwice :=
  notifies_of_orderly (by decide +kernel)

/-- The user id is emitted once more while the invite is pending. -/
def emittedAgain : List BridgeEvent :=
  [.userId (some "sam"), .snapshot 0 [invite], .resume 0 (.ok ()), .resume 0 (.ok ()),
    .userId (some "sam"), .snapshot 1 [invite], .resume 0 (.ok ())]

/-- Another user signs in while a snapshot waits for the manager. -/
def overtaken : List BridgeEvent :=
  [.userId (some "sam"), .snapshot 0 [nudge], .userId (some "ann"), .resume 0 (.ok ())]

instance (s : InboxBridge) : Decidable s.Notifies :=
  decidable_of_iff ((s.state.shown.map fun n => (n.session, n.message.id)).Nodup ∧
      (∀ n ∈ s.state.shown ++ s.state.marked, n.user = some n.uid) ∧
        ∀ n ∈ s.state.marked, n.message.requiresAction = false)
    ⟨fun h => ⟨h.1, h.2.1, h.2.2⟩, fun h => ⟨h.once, h.own, h.unread⟩⟩

/-- An invite is shown twice, and a nudge is shown to another user. -/
theorem not_notifies : (∃ t, run step start emittedAgain = some t ∧ ¬t.Notifies) ∧
    ∃ t, run step start overtaken = some t ∧ ¬t.Notifies := by
  have hagain : (run step start emittedAgain).map (fun t => decide t.Notifies) = some false := by
    decide +kernel
  have hovertaken : (run step start overtaken).map (fun t => decide t.Notifies) = some false := by
    decide +kernel
  obtain ⟨t, ht, hshown⟩ := Option.map_eq_some_iff.mp hagain
  obtain ⟨u, hu, hother⟩ := Option.map_eq_some_iff.mp hovertaken
  exact ⟨⟨t, ht, of_decide_eq_false hshown⟩, u, hu, of_decide_eq_false hother⟩

end InboxBridge

end Duet
