import Duet.Lib.Async

/-!
# `InboxNotificationBridge`

The bridge listens to the inbox of the signed-in user and shows its messages as notifications, each
snapshot in a call of its own. It remembers the messages that it has taken on.

## Main definitions

* `InboxNotificationBridge.showUnshown` — what is done with a snapshot.
* `InboxBridge.step` — a user id is emitted, a snapshot arrives, or a call goes on.
* `ShowSegment` — what a call does from one await to the next.
-/

namespace Duet

open Lib Async

/-- What the bridge reads of a message. -/
structure UserMessage where
  id : String
  title : String
  body : String
  requiresAction : Bool
  deriving DecidableEq, Repr

/-- A message has been shown or marked read: who was signed in, for how many changes of users, and
whose inbox the message is from. -/
structure Notice where
  session : Nat
  user : Option String
  uid : String
  message : UserMessage
  deriving DecidableEq, Repr

/-- The inbox that is listened to, with the number of the listen, and the ids that have been taken
on; and, for what a run is to say, the user id emitted last, how often it has changed, and what has
been shown and marked read. -/
structure InboxNotificationBridge where
  inboxSubscription : Option (Nat × String)
  listens : Nat
  shownIds : List String
  user : Option String
  session : Nat
  shown : List Notice
  marked : List Notice
  deriving DecidableEq, Repr

/-- `_showUnshown` for a user and the messages of a snapshot. -/
structure ShowCall where
  uid : String
  messages : List UserMessage
  deriving DecidableEq, Repr

/-- What a call awaits: the manager, a notification, or a message that is marked read; with the
messages that are to be shown after it. -/
inductive ShowAwait where
  | getAsync (fresh : List UserMessage)
  | showLocal (message : UserMessage) (rest : List UserMessage)
  | markRead (message : UserMessage) (rest : List UserMessage)
  deriving DecidableEq, Repr

/-- What comes back: the manager may not be there; showing and marking do not throw. -/
abbrev ShowReply := Except String Unit

abbrev ShowProgram (α : Type) := Async ShowAwait ShowReply InboxNotificationBridge String α

namespace InboxNotificationBridge

def initial : InboxNotificationBridge := ⟨none, 0, [], none, 0, [], []⟩

def onUserIdChanged (s : InboxNotificationBridge) (uid : Option String) : InboxNotificationBridge :=
  { s with
    inboxSubscription := uid.map fun uid => (s.listens, uid)
    listens := s.listens + 1
    shownIds := []
    user := uid
    session := if uid = s.user then s.session else s.session + 1 }

/-- The messages whose ids are new, and the ids with theirs. -/
def takeOn (shownIds : List String) : List UserMessage → List UserMessage × List String
  | [] => ([], shownIds)
  | message :: rest =>
    if message.id ∈ shownIds then takeOn shownIds rest
    else
      let (fresh, ids) := takeOn (message.id :: shownIds) rest
      (message :: fresh, ids)

def notice (s : InboxNotificationBridge) (uid : String) (message : UserMessage) : Notice :=
  ⟨s.session, s.user, uid, message⟩

/-- `showLocal` is called. -/
def showLocal (s : InboxNotificationBridge) (uid : String) (message : UserMessage) :
    InboxNotificationBridge :=
  { s with shown := s.shown ++ [s.notice uid message] }

/-- `markRead` is called. -/
def markRead (s : InboxNotificationBridge) (uid : String) (message : UserMessage) :
    InboxNotificationBridge :=
  { s with marked := s.marked ++ [s.notice uid message] }

/-- The loop of `_showUnshown`. -/
def display (uid : String) : List UserMessage → ShowProgram Unit
  | [] => done ()
  | message :: rest => do
    modify fun s => s.showLocal uid message
    let _ ← suspend (.showLocal message rest)
    if message.requiresAction then display uid rest
    else do
      modify fun s => s.markRead uid message
      let _ ← suspend (.markRead message rest)
      display uid rest

/-- `_showUnshown`. -/
def showUnshown (call : ShowCall) : ShowProgram Unit := do
  let s ← get
  let (fresh, shownIds) := takeOn s.shownIds call.messages
  modify fun s => { s with shownIds }
  if fresh.isEmpty then done ()
  else do
    let manager ← suspend (.getAsync fresh)
    ofExcept manager
    display call.uid fresh

end InboxNotificationBridge

/-! ## Runs -/

/-- The bridge, and the calls that run. -/
abbrev InboxBridge :=
  Lib.Isolate ShowCall ShowAwait ShowReply InboxNotificationBridge String Unit

inductive BridgeEvent where
  | userId (uid : Option String)
  | snapshot (listen : Nat) (messages : List UserMessage)
  | resume (i : Nat) (reply : ShowReply)
  deriving DecidableEq

namespace InboxBridge

/-- One event. A listen that has been cancelled gets no snapshots. -/
def step (s : InboxBridge) : BridgeEvent → Option InboxBridge
  | .userId uid => some { s with state := s.state.onUserIdChanged uid }
  | .snapshot listen messages =>
    match s.state.inboxSubscription with
    | none => some s
    | some (current, uid) =>
      if listen = current then
        Lib.Isolate.step InboxNotificationBridge.showUnshown id s (.call ⟨uid, messages⟩)
      else some s
  | .resume i reply =>
    Lib.Isolate.step InboxNotificationBridge.showUnshown id s (.resume i reply)

/-- Nobody has signed in. -/
def start : InboxBridge := Lib.Isolate.start .initial

end InboxBridge

/-! ## The segments of the calls -/

namespace ShowAwait

/-- The messages that are still to be shown. -/
def toShow : ShowAwait → List UserMessage
  | getAsync fresh => fresh
  | showLocal _ rest | markRead _ rest => rest

/-- The message that is marked read next. -/
def toMark? : ShowAwait → Option UserMessage
  | showLocal message _ => if message.requiresAction then none else some message
  | _ => none

/-- What is awaited is there. -/
def answered : ShowAwait → ShowReply → Bool
  | getAsync _, .error _ => false
  | _, _ => true

end ShowAwait

open InboxNotificationBridge in
/-- What a call does from one await to the next: it takes on the messages of its snapshot; it marks
the message read that has been shown; it shows the next one; or it ends. -/
inductive ShowSegment (call : ShowCall) : Option (ShowAwait × ShowReply) → InboxNotificationBridge →
    Stop ShowAwait String Unit → InboxNotificationBridge → Prop where
  | nothing (s) : (takeOn s.shownIds call.messages).1 = [] →
    ShowSegment call none s (.ends (.ok ()))
      { s with shownIds := (takeOn s.shownIds call.messages).2 }
  | takesOn (s) : ShowSegment call none s (.waits (.getAsync (takeOn s.shownIds call.messages).1))
      { s with shownIds := (takeOn s.shownIds call.messages).2 }
  | noManager (s fresh error) :
    ShowSegment call (some (.getAsync fresh, .error error)) s (.ends (.error error)) s
  | marks (s point reply message rest) : point = .showLocal message rest →
    point.toMark? = some message →
    ShowSegment call (some (point, reply)) s (.waits (.markRead message rest))
      (s.markRead call.uid message)
  | shows (s point reply message rest) : point.answered reply = true → point.toMark? = none →
    point.toShow = message :: rest →
    ShowSegment call (some (point, reply)) s (.waits (.showLocal message rest))
      (s.showLocal call.uid message)
  | ended (s point reply) : point.toMark? = none → point.toShow = [] →
    ShowSegment call (some (point, reply)) s (.ends (.ok ())) s

namespace InboxNotificationBridge

/-- The loop from where it goes on to the next message. -/
theorem follows_display {call : ShowCall} {point : ShowAwait} {reply : ShowReply}
    {messages : List UserMessage} (s : InboxNotificationBridge)
    (hanswered : point.answered reply = true) (hmark : point.toMark? = none)
    (hshow : point.toShow = messages) :
    (display call.uid messages).FollowsOn (ShowSegment call) (some (point, reply)) s s := by
  induction messages generalizing point reply s with
  | nil => exact .ended s point reply hmark hshow
  | cons message rest ih =>
    refine ⟨.shows s point reply message rest hanswered hmark hshow, fun t reply => ?_⟩
    by_cases haction : message.requiresAction = true
    · simp only [haction, if_true]
      exact ih t rfl (if_pos haction) rfl
    · simp only [haction, Bool.false_eq_true, if_false]
      refine ⟨.marks t _ reply message rest rfl (if_neg haction), fun u reply => ?_⟩
      exact ih u rfl rfl rfl

theorem follows_showUnshown (call : ShowCall) (s : InboxNotificationBridge) :
    (showUnshown call).FollowsOn (ShowSegment call) none s s := by
  unfold showUnshown
  rw [followsOn_get_bind]
  dsimp only
  rw [followsOn_modify_bind]
  split_ifs with hempty
  · exact .nothing s (List.isEmpty_iff.mp hempty)
  · refine ⟨.takesOn s, fun t manager => ?_⟩
    cases manager with
    | error error => exact .noManager t _ error
    | ok _ => exact follows_display t rfl rfl rfl

end InboxNotificationBridge

end Duet
