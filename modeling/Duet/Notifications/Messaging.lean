import Duet.Cloud.Documents
import Duet.Domain.Piece
import Duet.Lib.Transition
import Duet.Notifications.InboxBridge

/-!
# The two messaging stores

`InMemoryUserMessaging` and `FirestoreUserMessaging` keep the device tokens and the inboxes behind
`DeviceTokenRegistry` and `UserMessageGateway`. The one drops a message that is marked read and holds
the messages in the order of their arrival; the other flags it and lists the rest by their ids. On a
store that grants every write they show the same.

## Main definitions

* `InMemoryUserMessaging.call`, `FirestoreUserMessaging.call` — a call of either store.
* `Messaging.Agrees` — both show every user the same messages and tokens.

## Main results

* `Messaging.agrees_iff` — they agree exactly as long as no message is sent under an id that its
  recipient has an unread message of.
-/

namespace Duet

open Lib

/-! ## Messages -/

/-- A message with all its fields. -/
structure SentMessage extends UserMessage where
  toUid : String
  sentAt : DateTime
  data : Assoc String String
  deriving DecidableEq, Repr

/-- The calls of `DeviceTokenRegistry` and `UserMessageGateway`. -/
inductive MessagingCall where
  | register (uid token : String)
  | unregister (uid token : String)
  | sendToUser (message : SentMessage)
  | markRead (uid id : String)
  deriving DecidableEq, Repr

/-! ## In memory -/

structure InMemoryUserMessaging where
  tokensByUid : Assoc String (List String)
  inboxByUid : Assoc String (List SentMessage)
  deriving DecidableEq, Repr

namespace InMemoryUserMessaging

def empty : InMemoryUserMessaging := ⟨[], []⟩

/-- `_snapshot`, the last event of `inboxFor`. -/
def snapshot (s : InMemoryUserMessaging) (uid : String) : List SentMessage :=
  (s.inboxByUid.get uid).getD []

def tokensFor (s : InMemoryUserMessaging) (uid : String) : List String :=
  (s.tokensByUid.get uid).getD []

def register (s : InMemoryUserMessaging) (uid token : String) : InMemoryUserMessaging :=
  let tokens := s.tokensFor uid
  { s with
    tokensByUid := s.tokensByUid.set uid (if token ∈ tokens then tokens else tokens ++ [token]) }

def unregister (s : InMemoryUserMessaging) (uid token : String) : InMemoryUserMessaging :=
  match s.tokensByUid.get uid with
  | none => s
  | some tokens => { s with tokensByUid := s.tokensByUid.set uid (tokens.filter (· ≠ token)) }

def sendToUser (s : InMemoryUserMessaging) (message : SentMessage) : InMemoryUserMessaging :=
  { s with inboxByUid := s.inboxByUid.set message.toUid (s.snapshot message.toUid ++ [message]) }

def markRead (s : InMemoryUserMessaging) (uid id : String) : InMemoryUserMessaging :=
  match s.inboxByUid.get uid with
  | none => s
  | some inbox =>
    let next := inbox.filter fun message => message.id ≠ id
    if next.length = inbox.length then s
    else { s with inboxByUid := s.inboxByUid.set uid next }

def call (s : InMemoryUserMessaging) : MessagingCall → InMemoryUserMessaging
  | .register uid token => s.register uid token
  | .unregister uid token => s.unregister uid token
  | .sendToUser message => s.sendToUser message
  | .markRead uid id => s.markRead uid id

end InMemoryUserMessaging

/-! ## In the cloud -/

namespace FirestoreUserMessaging

/-- `FieldValue.arrayUnion` of one string. -/
def arrayUnion (token : String) : Value → Value
  | .array items => .array (if .string token ∈ items then items else items ++ [.string token])
  | _ => .array [.string token]

/-- A merge that transforms one field, which the store does in one step. -/
def transformTokens (uid : String) (transform : Value → Value) : AdminProgram Unit :=
  transaction (.get (.deviceTokens uid) fun data =>
    .commit [.merge (.deviceTokens uid) [("tokens", transform ((data.getD []).read "tokens"))]])

def register (uid token : String) : AdminProgram Unit := transformTokens uid (arrayUnion token)

def unregister (uid token : String) : AdminProgram Unit :=
  transformTokens uid (Change.apply (.arrayRemove (.string token)))

/-- The document of a message that has not been read. -/
def messageFields (message : SentMessage) : Fields :=
  Assoc.ofList [("toUid", .string message.toUid), ("title", .string message.title),
    ("body", .string message.body),
    ("data", .map (message.data.map fun entry => (entry.1, .string entry.2))),
    ("sentAtMillis", .int message.sentAt.millisecondsSinceEpoch), ("read", .bool false),
    ("requiresAction", .bool message.requiresAction)]

def sendToUser (message : SentMessage) : AdminProgram Unit :=
  commit [.set (.userInbox message.toUid message.id) (messageFields message)]

def markRead (uid id : String) : AdminProgram Unit :=
  commit [.merge (.userInbox uid id) [("read", .bool true)]]

def program : MessagingCall → AdminProgram Unit
  | .register uid token => register uid token
  | .unregister uid token => unregister uid token
  | .sendToUser message => sendToUser message
  | .markRead uid id => markRead uid id

/-- The call, which no other comes between. -/
def call (cloud : Cloud) (call : MessagingCall) : Cloud :=
  ((program call).exec Operation.perform cloud).2

/-- The `data` of a message, whose values are strings. -/
def dataOf? : Value → Option (Assoc String String)
  | .null => some []
  | .map fields => fields.mapM fun entry => entry.2.asString.map fun value => (entry.1, value)
  | _ => none

def requiresActionOf? (value : Value) : Option Bool := (value.orNull Value.asBool).map (·.getD false)

def toMessage (id : String) (data : Fields) : Option SentMessage := do
  let toUid ← (data.read "toUid").asString
  let title ← (data.read "title").asString
  let body ← (data.read "body").asString
  let sentAtMillis ← (data.read "sentAtMillis").asInt
  let sentAt ← DateTime.fromMillisecondsSinceEpoch sentAtMillis
  let messageData ← dataOf? (data.read "data")
  let requiresAction ← requiresActionOf? (data.read "requiresAction")
  some ⟨⟨id, title, body, requiresAction⟩, toUid, sentAt, messageData⟩

/-- `doc.id` of a message. -/
def messageIdOf : DocPath → String
  | .userInbox _ messageId => messageId
  | _ => ""

/-- `where('read', isEqualTo: false)`. -/
def isUnread (data : Fields) : Bool := data.get "read" = some (.bool false)

/-- The last event of `inboxFor`. -/
def inboxFor (cloud : Cloud) (uid : String) : Option (List SentMessage) :=
  ((cloud.list (.inboxOf uid)).filter fun doc => isUnread doc.2).mapM fun doc =>
    toMessage (messageIdOf doc.1) doc.2

/-- The registered tokens. -/
def tokensFor (cloud : Cloud) (uid : String) : Value :=
  ((cloud.doc (.deviceTokens uid)).getD []).read "tokens"

end FirestoreUserMessaging

/-! ## What a message reads back as -/

namespace SentMessage

/-- The message as it is read back, to the millisecond. -/
def received (message : SentMessage) : SentMessage :=
  { message with sentAt := message.sentAt.toMillisecondPrecision }

@[simp] theorem received_id (message : SentMessage) : message.received.id = message.id := rfl

end SentMessage

namespace FirestoreUserMessaging

theorem dataOf_map (data : Assoc String String) :
    dataOf? (.map (data.map fun entry => (entry.1, .string entry.2))) = some data :=
  mapM_map_eq_self_iff.mpr fun _ _ => rfl

theorem isUnread_messageFields (message : SentMessage) : isUnread (messageFields message) = true := by
  simp [isUnread, messageFields, Assoc.ofList]

theorem toMessage_messageFields (message : SentMessage) :
    toMessage message.id (messageFields message) = some message.received := by
  have hdata : dataOf? ((messageFields message).read "data") = some message.data := by
    rw [← dataOf_map message.data]
    simp [messageFields, Assoc.ofList, Fields.read_set]
  obtain ⟨htoUid, htitle, hbody, hsentAt, haction⟩ :
      (messageFields message).read "toUid" = .string message.toUid ∧
      (messageFields message).read "title" = .string message.title ∧
      (messageFields message).read "body" = .string message.body ∧
      (messageFields message).read "sentAtMillis" = .int message.sentAt.millisecondsSinceEpoch ∧
      (messageFields message).read "requiresAction" = .bool message.requiresAction := by
    simp [messageFields, Assoc.ofList, Fields.read_set]
  simp [toMessage, hdata, hsentAt, haction, htoUid, htitle, hbody, SentMessage.received,
    requiresActionOf?, Value.orNull]

theorem id_of_toMessage {id : String} {data : Fields} {message : SentMessage}
    (h : toMessage id data = some message) : message.id = id := by
  simp only [toMessage, Option.bind_eq_bind, Option.bind_eq_some_iff, Option.some.injEq] at h
  obtain ⟨-, -, -, -, -, -, -, -, -, -, -, -, -, -, rfl⟩ := h
  rfl

/-- The messages of an inbox have different ids. -/
theorem nodup_inboxFor {cloud : Cloud} {uid : String} {messages : List SentMessage}
    (h : inboxFor cloud uid = some messages) : (messages.map (·.id)).Nodup := by
  have hids (docs : List (DocPath × Fields)) (messages : List SentMessage)
      (h : docs.mapM (fun doc => toMessage (messageIdOf doc.1) doc.2) = some messages) :
      messages.map (·.id) = docs.map fun doc => messageIdOf doc.1 := by
    induction docs generalizing messages with
    | nil =>
      obtain rfl : [] = messages := by simpa using h
      rfl
    | cons doc docs ih =>
      simp only [List.mapM_cons, Option.bind_eq_bind, Option.bind_eq_some_iff, Option.pure_def,
        Option.some.injEq] at h
      obtain ⟨message, hmessage, rest, hrest, rfl⟩ := h
      rw [List.map_cons, List.map_cons, ih rest hrest, id_of_toMessage hmessage]
  rw [hids _ _ h]
  refine List.Nodup.map_on ?_ (cloud.nodup_list.filter _)
  rintro ⟨path, fields⟩ hdoc ⟨path', fields'⟩ hdoc' hid
  obtain ⟨hstored, hselects⟩ := Cloud.mem_list.mp (List.mem_filter.mp hdoc).1
  obtain ⟨hstored', hselects'⟩ := Cloud.mem_list.mp (List.mem_filter.mp hdoc').1
  cases path with
  | userInbox owner id =>
    cases path' with
    | userInbox owner' id' =>
      obtain rfl : owner = uid := by simpa [Query.selects] using hselects
      obtain rfl : owner' = owner := by simpa [Query.selects] using hselects'
      obtain rfl : id = id' := hid
      rw [Option.some.inj (hstored.symm.trans hstored')]
    | _ => simp [Query.selects] at hselects'
  | _ => simp [Query.selects] at hselects

/-! ## What the calls do to the documents -/

/-- What the value holds, nothing where it is no array. -/
def itemsOf : Value → List Value
  | .array items => items
  | _ => []

theorem itemsOf_arrayUnion (token : String) (value : Value) : itemsOf (arrayUnion token value) =
    if .string token ∈ itemsOf value then itemsOf value else itemsOf value ++ [.string token] := by
  cases value with
  | array items =>
    by_cases hmem : Value.string token ∈ items <;> simp [itemsOf, arrayUnion, hmem]
  | _ => rfl

theorem itemsOf_arrayRemove (token : String) (value : Value) :
    itemsOf (Change.apply (.arrayRemove (.string token)) value) =
      (itemsOf value).filter (· ≠ .string token) := by
  cases value <;> simp [itemsOf, Change.apply]

theorem tokensFor_store_of_ne (cloud : Cloud) {path : DocPath} {uid : String}
    (h : path ≠ .deviceTokens uid) (fields : Option Fields) :
    tokensFor (cloud.store path fields) uid = tokensFor cloud uid := by
  rw [tokensFor, Cloud.doc_store_of_ne _ h.symm]
  rfl

theorem tokensFor_store_self (cloud : Cloud) (uid : String) (old : Fields) (value : Value) :
    tokensFor (cloud.store (.deviceTokens uid) (some (old.set "tokens" value))) uid = value := by
  rw [tokensFor, Cloud.doc_store_self, Option.getD_some, Fields.read_set, if_pos rfl]

theorem call_transformTokens (cloud : Cloud) (uid : String) (transform : Value → Value) :
    ((transformTokens uid transform).exec Operation.perform cloud).2 =
      cloud.store (.deviceTokens uid) (some (((cloud.doc (.deviceTokens uid)).getD []).set "tokens"
        (transform (tokensFor cloud uid)))) := rfl

theorem call_sendToUser (cloud : Cloud) (message : SentMessage) :
    call cloud (.sendToUser message) =
      cloud.store (.userInbox message.toUid message.id) (some (messageFields message)) := rfl

theorem call_markRead (cloud : Cloud) (uid id : String) : call cloud (.markRead uid id) =
    cloud.store (.userInbox uid id)
      (some (((cloud.doc (.userInbox uid id)).getD []).set "read" (.bool true))) := rfl

end FirestoreUserMessaging

/-! ## What the calls do to the memory -/

namespace InMemoryUserMessaging

variable (s : InMemoryUserMessaging) (uid id : String)

theorem snapshot_sendToUser (message : SentMessage) : (s.sendToUser message).snapshot uid =
    if uid = message.toUid then s.snapshot uid ++ [message] else s.snapshot uid := by
  rw [sendToUser, snapshot, Assoc.get_set]
  split_ifs with huid
  · rw [huid]
    rfl
  · rfl

theorem snapshot_markRead (owner : String) : (s.markRead owner id).snapshot uid =
    if uid = owner then (s.snapshot uid).filter (fun message => message.id ≠ id)
    else s.snapshot uid := by
  rw [markRead]
  cases hinbox : s.inboxByUid.get owner with
  | none =>
    split_ifs with huid
    · subst huid
      simp [snapshot, hinbox]
    · rfl
  | some inbox =>
    dsimp only
    split_ifs with hlength huid huid
    · subst huid
      rw [snapshot, hinbox]
      exact (List.filter_eq_self.mpr (List.length_filter_eq_length_iff.mp hlength)).symm
    · rfl
    · subst huid
      simp [snapshot, hinbox]
    · simp [snapshot, huid]

theorem tokensFor_markRead (owner : String) : (s.markRead owner id).tokensFor uid = s.tokensFor uid := by
  rw [markRead]
  cases s.inboxByUid.get owner with
  | none => rfl
  | some inbox =>
    dsimp only
    split_ifs <;> rfl

theorem tokensFor_register (owner token : String) : (s.register owner token).tokensFor uid =
    if uid = owner then (if token ∈ s.tokensFor uid then s.tokensFor uid else s.tokensFor uid ++ [token])
    else s.tokensFor uid := by
  by_cases huid : uid = owner
  · subst huid
    simp [register, tokensFor]
  · simp [register, tokensFor, huid]

theorem tokensFor_unregister (owner token : String) : (s.unregister owner token).tokensFor uid =
    if uid = owner then (s.tokensFor uid).filter (· ≠ token) else s.tokensFor uid := by
  rw [unregister]
  cases htokens : s.tokensByUid.get owner with
  | none =>
    split_ifs with huid
    · subst huid
      simp [tokensFor, htokens]
    · rfl
  | some tokens =>
    split_ifs with huid
    · subst huid
      simp [tokensFor, htokens]
    · simp [tokensFor, huid]

end InMemoryUserMessaging

/-! ## Both stores -/

/-- The two stores, which get the same calls. -/
structure Messaging where
  memory : InMemoryUserMessaging
  cloud : Cloud

namespace Messaging

open InMemoryUserMessaging FirestoreUserMessaging

def start : Messaging := ⟨.empty, .empty⟩

def step (s : Messaging) (call : MessagingCall) : Option Messaging :=
  some ⟨s.memory.call call, FirestoreUserMessaging.call s.cloud call⟩

/-- Every user is shown the same messages, up to their order and the microseconds, and has the same
tokens. -/
def Agrees (s : Messaging) : Prop := ∀ uid,
  (∃ messages, inboxFor s.cloud uid = some messages ∧
    messages.Perm ((s.memory.snapshot uid).map SentMessage.received)) ∧
  itemsOf (FirestoreUserMessaging.tokensFor s.cloud uid) = (s.memory.tokensFor uid).map .string

/-- The recipient has no unread message with the id of the one that is sent. -/
def SendsNew (s : Messaging) : MessagingCall → Prop
  | .sendToUser message => ∀ other ∈ s.memory.snapshot message.toUid, other.id ≠ message.id
  | _ => True

/-- The unread documents of an inbox are those of the messages that are held in memory. -/
structure Mirrors (s : Messaging) : Prop where
  unread : ∀ uid id fields, (s.cloud.doc (.userInbox uid id)).filter isUnread = some fields ↔
    ∃ message ∈ s.memory.snapshot uid, message.id = id ∧ messageFields message = fields
  nodup : ∀ uid, ((s.memory.snapshot uid).map (·.id)).Nodup
  registered : ∀ uid, itemsOf (FirestoreUserMessaging.tokensFor s.cloud uid) =
    (s.memory.tokensFor uid).map .string

variable {s t : Messaging} {uid : String}

/-- The document of an unread message. -/
def docOf (uid : String) (message : SentMessage) : DocPath × Fields :=
  (.userInbox uid message.id, messageFields message)

theorem toMessage_docOf (message : SentMessage) :
    toMessage (messageIdOf (docOf uid message).1) (docOf uid message).2 = some message.received := by
  simpa only [docOf, messageIdOf] using toMessage_messageFields message

theorem Mirrors.perm (h : s.Mirrors) : ((s.cloud.list (.inboxOf uid)).filter fun doc =>
    isUnread doc.2).Perm ((s.memory.snapshot uid).map (docOf uid)) := by
  have hids : (((s.memory.snapshot uid).map (docOf uid)).map fun doc => messageIdOf doc.1).Nodup := by
    rw [List.map_map]
    exact h.nodup uid
  refine (List.perm_ext_iff_of_nodup (s.cloud.nodup_list.filter _) (.of_map _ hids)).mpr ?_
  rintro ⟨path, fields⟩
  rw [List.mem_filter, Cloud.mem_list, List.mem_map]
  constructor
  · rintro ⟨⟨hdoc, hselects⟩, hunread⟩
    cases path with
    | userInbox owner id =>
      obtain rfl : owner = uid := by simpa [Query.selects] using hselects
      have hstored : (s.cloud.doc (.userInbox owner id)).filter isUnread = some fields := by
        rw [hdoc, Option.filter_some, if_pos hunread]
      obtain ⟨message, hmessage, hid, hfields⟩ := (h.unread owner id fields).mp hstored
      exact ⟨message, hmessage, by rw [docOf, hid, hfields]⟩
    | _ => simp [Query.selects] at hselects
  · rintro ⟨message, hmessage, heq⟩
    obtain ⟨hpath, hfields⟩ := Prod.mk.inj heq
    subst hpath
    obtain ⟨hdoc, hunread⟩ := Option.filter_eq_some_iff.mp
      ((h.unread uid message.id fields).mpr ⟨message, hmessage, rfl, hfields⟩)
    exact ⟨⟨hdoc, by simp [Query.selects]⟩, hunread⟩

theorem Mirrors.agrees (h : s.Mirrors) : s.Agrees := by
  intro uid
  refine ⟨?_, h.registered uid⟩
  have hread : ((s.memory.snapshot uid).map (docOf uid)).mapM
      (fun doc => toMessage (messageIdOf doc.1) doc.2) = some ((s.memory.snapshot uid).map SentMessage.received) :=
    mapM_map_eq_some toMessage_docOf _
  exact exists_mapM_of_perm h.perm hread

/-! ### The calls -/

theorem mirrors_start : start.Mirrors where
  unread uid id fields := by simp [start, snapshot, InMemoryUserMessaging.empty]
  nodup uid := List.nodup_nil
  registered uid := rfl

theorem Mirrors.sendToUser {message : SentMessage} (h : s.Mirrors)
    (hnew : s.SendsNew (.sendToUser message)) (ht : step s (.sendToUser message) = some t) :
    t.Mirrors := by
  obtain rfl := Option.some.inj ht
  refine ⟨fun uid id fields => ?_, fun uid => ?_, fun uid => ?_⟩
  · rw [call_sendToUser, Cloud.doc_store]
    simp only [InMemoryUserMessaging.call, snapshot_sendToUser]
    by_cases huid : uid = message.toUid
    · subst huid
      by_cases hid : id = message.id
      · subst hid
        rw [if_pos rfl, if_pos rfl, Option.filter_some, if_pos (isUnread_messageFields message)]
        constructor
        · intro heq
          exact ⟨message, by simp, rfl, Option.some.inj heq⟩
        · rintro ⟨other, hother, hid, rfl⟩
          obtain hother | hother := List.mem_append.mp hother
          · exact absurd hid (hnew other hother)
          · rw [List.mem_singleton.mp hother]
      · rw [if_neg (by simpa using hid), if_pos rfl, h.unread]
        grind
    · rw [if_neg (fun hpath => huid (DocPath.userInbox.inj hpath).1), if_neg huid]
      exact h.unread uid id fields
  · simp only [InMemoryUserMessaging.call, snapshot_sendToUser]
    split_ifs with huid
    · subst huid
      rw [List.map_append, List.nodup_append]
      refine ⟨h.nodup _, by simp, ?_⟩
      grind [SendsNew]
    · exact h.nodup uid
  · rw [call_sendToUser, tokensFor_store_of_ne _ (by simp)]
    exact h.registered uid

theorem Mirrors.markRead {owner target : String} (h : s.Mirrors)
    (ht : step s (.markRead owner target) = some t) : t.Mirrors := by
  obtain rfl := Option.some.inj ht
  refine ⟨fun uid id fields => ?_, fun uid => ?_, fun uid => ?_⟩
  · rw [call_markRead, Cloud.doc_store]
    simp only [InMemoryUserMessaging.call, snapshot_markRead]
    by_cases huid : uid = owner
    · subst huid
      rw [if_pos rfl]
      by_cases hid : id = target
      · subst hid
        rw [if_pos rfl, Option.filter_some, if_neg (by simp [isUnread])]
        grind
      · rw [if_neg (by simpa using hid), h.unread]
        grind
    · rw [if_neg (fun hpath => huid (DocPath.userInbox.inj hpath).1), if_neg huid]
      exact h.unread uid id fields
  · simp only [InMemoryUserMessaging.call, snapshot_markRead]
    split_ifs with huid
    · exact (h.nodup uid).sublist (List.filter_sublist.map _)
    · exact h.nodup uid
  · rw [call_markRead, tokensFor_store_of_ne _ (by simp)]
    exact (h.registered uid).trans (by rw [InMemoryUserMessaging.call, tokensFor_markRead])

/-- A transformation of the tokens that both stores make. -/
theorem Mirrors.transform {memory : InMemoryUserMessaging} {owner : String}
    {transform : Value → Value} (h : s.Mirrors)
    (hsnapshot : ∀ uid, memory.snapshot uid = s.memory.snapshot uid)
    (hother : ∀ uid, uid ≠ owner → memory.tokensFor uid = s.memory.tokensFor uid)
    (htokens : itemsOf (transform (FirestoreUserMessaging.tokensFor s.cloud owner)) =
      (memory.tokensFor owner).map .string) :
    Mirrors ⟨memory, ((transformTokens owner transform).exec Operation.perform s.cloud).2⟩ := by
  rw [call_transformTokens]
  refine ⟨fun uid id fields => ?_, fun uid => ?_, fun uid => ?_⟩
  · rw [Cloud.doc_store_of_ne _ (by simp), hsnapshot]
    exact h.unread uid id fields
  · rw [hsnapshot]
    exact h.nodup uid
  · by_cases huid : uid = owner
    · subst huid
      rw [tokensFor_store_self]
      exact htokens
    · rw [tokensFor_store_of_ne _ (by simpa [eq_comm] using huid), hother uid huid]
      exact h.registered uid

theorem mirrors_step {call : MessagingCall} (h : s.Mirrors) (hnew : s.SendsNew call)
    (ht : step s call = some t) : t.Mirrors := by
  cases call with
  | sendToUser message => exact h.sendToUser hnew ht
  | markRead uid id => exact h.markRead ht
  | register uid token =>
    obtain rfl := Option.some.inj ht
    refine h.transform (fun _ => rfl) (fun other hne => ?_) ?_
    · rw [InMemoryUserMessaging.call, tokensFor_register, if_neg hne]
    · rw [itemsOf_arrayUnion, h.registered, InMemoryUserMessaging.call, tokensFor_register, if_pos rfl]
      split_ifs <;> simp_all
  | unregister uid token =>
    obtain rfl := Option.some.inj ht
    refine h.transform (fun other => ?_) (fun other hne => ?_) ?_
    · rw [InMemoryUserMessaging.call, InMemoryUserMessaging.unregister]
      cases s.memory.tokensByUid.get uid <;> rfl
    · rw [InMemoryUserMessaging.call, tokensFor_unregister, if_neg hne]
    · rw [itemsOf_arrayRemove, h.registered, InMemoryUserMessaging.call, tokensFor_unregister,
        if_pos rfl, List.filter_map]
      simp [Function.comp_def]

/-- A message with the id of an unread one is shown beside it from memory, and in its place from the
cloud. -/
theorem not_agrees_of_not_sendsNew {call : MessagingCall} (hnew : ¬s.SendsNew call)
    (ht : step s call = some t) : ¬t.Agrees := by
  intro hagrees
  obtain rfl := Option.some.inj ht
  cases call with
  | sendToUser message =>
    obtain ⟨other, hother, hid⟩ : ∃ other ∈ s.memory.snapshot message.toUid, other.id = message.id := by
      simpa [SendsNew] using hnew
    obtain ⟨⟨messages, hread, hperm⟩, -⟩ := hagrees message.toUid
    have hnodup := nodup_inboxFor hread
    rw [(hperm.map (·.id)).nodup_iff, InMemoryUserMessaging.call, snapshot_sendToUser, if_pos rfl,
      List.map_map, List.map_append, List.nodup_append] at hnodup
    exact hnodup.2.2 other.id (List.mem_map.mpr ⟨other, hother, rfl⟩) message.id (by simp) hid
  | _ => exact hnew trivial

/-- The two stores agree exactly in the runs that send no message under an id that its recipient has
an unread message of. -/
theorem agrees_iff (calls : List MessagingCall) :
    Always step Agrees start calls ↔ EachStep step SendsNew start calls := by
  refine always_iff_eachStep (I := fun s => s.Agrees → s.Mirrors) (fun s call t hs hagrees ht => ?_)
    (fun s call t hs hagrees ht => ?_) (by rintro s call ⟨⟩) (fun _ => mirrors_start)
    mirrors_start.agrees
  · intro hthen
    by_cases hnew : s.SendsNew call
    · exact mirrors_step (hs hagrees) hnew ht
    · exact absurd hthen (not_agrees_of_not_sendsNew hnew ht)
  · refine ⟨fun hthen => ?_, fun hnew => (mirrors_step (hs hagrees) hnew ht).agrees⟩
    by_contra hnew
    exact not_agrees_of_not_sendsNew hnew ht hthen

end Messaging

end Duet
