import Duet.Cloud.Invitations
import Mathlib.Tactic.IntervalCases

/-!
# Invites are used once

`acceptInvite` reads the message, joins the piece in a transaction and then marks the message read.
Its recipient can mark it unread again, and a second call can have read it before.

## Main definitions

* `Server.joins` — a step adds the recipient of a message to a piece.
* `Server.FreshIds` — generated message ids are new.
* `Server.ConsumesOnce` — clients leave used messages read, and calls on one message do not overlap.
* `Server.Used` — the message is marked read, or a call is about to.

## Main results

* `Server.joins_at_most_once` — a message adds its recipient to a piece at most once.
-/

namespace Duet

open Lib Program Verdict

variable {emailKey : String → String}

/-- A call by `uid` on the message. -/
def RunningCall.Accepts (uid messageId : String) (call : RunningCall) : Prop :=
  match call.request with
  | .acceptInvite (some token) data =>
    token.uid = uid ∧ nonEmptyString? (data.read "messageId") = some messageId
  | _ => False

instance (uid messageId : String) (call : RunningCall) :
    Decidable (call.Accepts uid messageId) := by
  unfold RunningCall.Accepts
  split <;> infer_instance

/-- The call delivers the message. -/
def RunningCall.Delivers (messageId : String) (call : RunningCall) : Prop :=
  match call.request with
  | .sendInvite _ _ messageId' _ => messageId' = messageId
  | _ => False

/-- The user takes part in a piece of `c'` in which they did not in `c`. -/
def Cloud.gains (uid : String) (c c' : Cloud) : Bool :=
  c'.docs.any fun entry =>
    match entry.1 with
    | .pieces _ => decide (TakesPart entry.2 uid) &&
        !(c.doc entry.1).any fun piece => decide (TakesPart piece uid)
    | _ => false

/-- The call is about to mark the message read. -/
def RunningCall.Consuming (uid messageId : String) (call : RunningCall) : Prop :=
  call.Accepts uid messageId ∧
    call.program.next? = some (.commit [.merge (.userInbox uid messageId) [("read", .bool true)]])

theorem RunningCall.Accepts.unique {call : RunningCall} {uid uid' messageId messageId' : String}
    (h : call.Accepts uid messageId) (h' : call.Accepts uid' messageId') :
    uid = uid' ∧ messageId = messageId' := by
  obtain ⟨request, program⟩ := call
  cases request with
  | acceptInvite auth data =>
    cases auth with
    | none => exact h.elim
    | some token => exact ⟨h.1.symm.trans h'.1, Option.some.inj (h.2.symm.trans h'.2)⟩
  | _ => exact h.elim

namespace Server

/-- The step adds the recipient of the message to a piece. -/
def joins (uid messageId : String) (s : Server) : ServerEvent → Bool
  | .advance i =>
    match s.running[i]? with
    | some running => decide (running.Accepts uid messageId) &&
        s.cloud.gains uid (s.advance i running).cloud
    | none => false
  | _ => false

/-- The message is marked read, or is about to be. -/
def Used (uid messageId : String) (s : Server) : Prop :=
  (∀ message, s.cloud.doc (.userInbox uid messageId) = some message →
    message.read "read" = .bool true) ∨
  ∃ call ∈ s.running, call.Consuming uid messageId

/-- The id that is generated for a new message is a new one. -/
def FreshIds (s : Server) : ServerEvent → Prop
  | .call (.sendInvite _ _ messageId _) => ∀ call ∈ s.running, ¬call.Delivers messageId
  | _ => True

/-- Clients leave a message that is marked read as such, and a call that would add its caller to a
piece finds the message unread, with no other call about to mark it. -/
def ConsumesOnce (s : Server) : ServerEvent → Prop
  | .write uid write => ∀ messageId old, write.path = .userInbox uid messageId →
      s.cloud.doc write.path = some old → old.read "read" = .bool true →
      ∀ fields, write.result (some old) = .ok (some fields) → fields.read "read" = .bool true
  | .advance i => ∀ call uid messageId name email pieceId, s.running[i]? = some call →
      call.Accepts uid messageId →
      call.program.next? = some (.transaction (joinPiece uid name email pieceId)) →
      (∀ piece, s.cloud.doc (.pieces pieceId) = some piece → ¬TakesPart piece uid) →
      (∃ message, s.cloud.doc (.userInbox uid messageId) = some message ∧
        message.read "read" ≠ .bool true) ∧
      ∀ other ∈ s.running, ¬other.Consuming uid messageId
  | _ => True

/-! ## Where the calls stand -/

/-- How far an `acceptInvite` call by `uid` has got with the message that it has read. -/
inductive AcceptProgress (uid messageId : String) : AdminProgram Reply → Prop where
  | joining {name email : Value} {pieceId : String} {message : Fields} :
      AcceptProgress uid messageId (.call (.transaction (joinPiece uid name email pieceId)) fun _ =>
        consumeInvite uid messageId message)
  | consuming {message : Fields} : AcceptProgress uid messageId (consumeInvite uid messageId message)
  | ended {program : AdminProgram Reply} (h : program.next? = none) :
      AcceptProgress uid messageId program

/-- The message has been delivered by a call that has ended. -/
def Delivered (messageId : String) (s : Server) : Prop :=
  ∃ call ∈ s.running, call.Delivers messageId ∧ call.program.next? = none

/-- Where a call stands; what `acceptInvite` has read has been delivered. -/
def CallDelivers (emailKey : String → String) (s : Server) (call : RunningCall) : Prop :=
  match call.request with
  | .sendInvite auth data messageId now =>
    InviteStage emailKey (fun _ _ => True) auth data messageId now call.program
  | .acceptInvite auth data => call.program = acceptInvite auth data ∨
    (∃ token messageId, auth = some token ∧ nonEmptyString? (data.read "messageId") = some messageId ∧
      AcceptProgress token.uid messageId call.program ∧ Delivered messageId s) ∨
    call.program.next? = none
  | .leavePiece _ _ => call.program.Issues (fun _ _ => True) Drops
  | .deleteAccount _ _ _ => call.program.Issues (fun _ _ => True) Drops

/-- What every state of a run keeps: a stored message has been delivered, and each id by one call. -/
structure Delivering (emailKey : String → String) (s : Server) : Prop where
  stored : ∀ uid messageId message, s.cloud.doc (.userInbox uid messageId) = some message →
    Delivered messageId s
  unique : ∀ (i j : Nat) (call other : RunningCall) messageId, s.running[i]? = some call → s.running[j]? = some other →
    call.Delivers messageId → other.Delivers messageId → i = j
  calls : ∀ call ∈ s.running, CallDelivers emailKey s call

variable {s t : Server} {uid messageId : String} {call : RunningCall}

theorem delivering_initial : Delivering emailKey initial := by
  refine ⟨?_, ?_, ?_⟩
  · intro uid messageId message h
    cases h
  · intro i j call other messageId hi
    simp [initial] at hi
  · intro call hcall
    cases hcall

theorem AcceptProgress.advance {program : AdminProgram Reply}
    (h : AcceptProgress uid messageId program) (c : Cloud) :
    AcceptProgress uid messageId (program.advance Operation.perform c).1 := by
  cases h with
  | joining =>
    obtain ⟨_, -, hnext⟩ | ⟨failure, hnext⟩ := advance_call_fst Operation.perform _ _ c
    · rw [hnext]
      exact .consuming
    · rw [hnext]
      exact .ended rfl
  | consuming =>
    obtain ⟨_, -, hnext⟩ | ⟨failure, hnext⟩ := advance_call_fst Operation.perform _ _ c
    · exact .ended (congrArg next? hnext)
    · exact .ended (congrArg next? hnext)
  | ended hend =>
    rw [advance_of_next_none _ hend]
    exact .ended hend

/-- After its first operation an `acceptInvite` call has ended, or has read a stored message. -/
theorem acceptInvite_advance (auth : Option Token) (data : Fields) (c : Cloud) :
    ((acceptInvite auth data).advance Operation.perform c).2 = c ∧
      (((acceptInvite auth data).advance Operation.perform c).1.next? = none ∨
      ∃ token messageId message, auth = some token ∧
        nonEmptyString? (data.read "messageId") = some messageId ∧
        c.doc (.userInbox token.uid messageId) = some message ∧
        AcceptProgress token.uid messageId ((acceptInvite auth data).advance Operation.perform c).1) := by
  simp only [acceptInvite]
  cases auth with
  | none => exact ⟨rfl, .inl rfl⟩
  | some token =>
    cases hid : nonEmptyString? (data.read "messageId") with
    | none => exact ⟨rfl, .inl rfl⟩
    | some messageId =>
      refine ⟨rfl, ?_⟩
      change (useInvite token data messageId (c.doc (.userInbox token.uid messageId))).next? = none ∨
        ∃ token' messageId' message, _ ∧ _ ∧ _ ∧ AcceptProgress _ _
          (useInvite token data messageId (c.doc (.userInbox token.uid messageId)))
      cases hdoc : c.doc (.userInbox token.uid messageId) with
      | none => exact .inl rfl
      | some message =>
        refine .inr ⟨token, messageId, message, rfl, rfl, hdoc, ?_⟩
        simp only [useInvite]
        split_ifs
        · exact .ended rfl
        · exact .ended rfl
        split
        · exact .consuming
        · exact .joining

/-! ## What a step keeps -/

/-- The inbox documents after an operation: those before it, or the one that is written. -/
theorem inbox_perform_of_drops {op : Operation} (h : Drops op) {c : Cloud} {message : Fields}
    (hdoc : (op.perform c).2.doc (.userInbox uid messageId) = some message) :
    c.doc (.userInbox uid messageId) = some message := by
  cases op with
  | get path => exact hdoc
  | list query => exact hdoc
  | commit writes =>
    obtain ⟨path, rfl⟩ | ⟨pieceId, other, entries, rfl⟩ := h
    · rw [Operation.perform_write] at hdoc
      simp only [Write.result, Write.path, Cloud.doc_store] at hdoc
      split_ifs at hdoc
      exact hdoc
    · rwa [Operation.doc_perform_of_not (· = .pieces pieceId)
        (by simp [Operation.OnlyWrites, Write.path]) (by simp)] at hdoc
  | transaction body =>
    obtain ⟨other, pieceId, rfl⟩ := h
    rwa [Operation.doc_perform_of_not _ (onlyWrites_dropFromPiece other pieceId) (by simp)] at hdoc

theorem Delivered.of_running {i : Nat} {next : AdminProgram Reply} (h : Delivered messageId s)
    (hi : s.running[i]? = some call) (hrun : call.program.next? ≠ none)
    (ht : t.running = s.running.set i ⟨call.request, next⟩) : Delivered messageId t := by
  obtain ⟨sender, hsender, hdelivers, hended⟩ := h
  obtain ⟨j, hj⟩ := List.mem_iff_getElem?.mp hsender
  refine ⟨sender, List.mem_iff_getElem?.mpr ⟨j, ?_⟩, hdelivers, hended⟩
  rw [ht, List.getElem?_set_ne, hj]
  rintro rfl
  obtain rfl := Option.some.inj (hi.symm.trans hj)
  exact hrun hended

theorem CallDelivers.mono (h : CallDelivers emailKey s call)
    (hmono : ∀ messageId, Delivered messageId s → Delivered messageId t) :
    CallDelivers emailKey t call := by
  obtain ⟨request, program⟩ := call
  cases request with
  | sendInvite auth data messageId now => exact h
  | acceptInvite auth data =>
    obtain h | ⟨token, messageId, hauth, hid, hprogress, hdelivered⟩ | hend := h
    · exact .inl h
    · exact .inr (.inl ⟨token, messageId, hauth, hid, hprogress, hmono _ hdelivered⟩)
    · exact .inr (.inr hend)
  | leavePiece auth data => exact h
  | deleteAccount auth recent schedule => exact h

theorem gains_iff {c c' : Cloud} : c.gains uid c' = true ↔ ∃ pieceId piece',
    c'.doc (.pieces pieceId) = some piece' ∧ TakesPart piece' uid ∧
      ∀ piece, c.doc (.pieces pieceId) = some piece → ¬TakesPart piece uid := by
  rw [Cloud.gains, List.any_eq_true]
  constructor
  · rintro ⟨⟨path, piece'⟩, hentry, hgains⟩
    have hdoc : c'.doc path = some piece' := (Assoc.mem_iff_get c'.nodup).mp hentry
    cases path with
    | pieces pieceId =>
      simp only [Bool.and_eq_true, decide_eq_true_eq, Bool.not_eq_true'] at hgains
      refine ⟨pieceId, piece', hdoc, hgains.1, ?_⟩
      intro piece hpiece hpart
      simp [hpiece, hpart] at hgains
    | _ => cases hgains
  · rintro ⟨pieceId, piece', hdoc, hpart, hout⟩
    refine ⟨(.pieces pieceId, piece'), (Assoc.mem_iff_get c'.nodup).mpr hdoc, ?_⟩
    simp only [Bool.and_eq_true, decide_eq_true_eq, Bool.not_eq_true']
    refine ⟨hpart, ?_⟩
    cases hpiece : c.doc (.pieces pieceId) with
    | none => rfl
    | some piece => simpa using hout piece hpiece

theorem gains_eq_false {c c' : Cloud}
    (h : ∀ pieceId piece', c'.doc (.pieces pieceId) = some piece' → TakesPart piece' uid →
      ∃ piece, c.doc (.pieces pieceId) = some piece ∧ TakesPart piece uid) :
    c.gains uid c' = false := by
  rw [Bool.eq_false_iff]
  intro hgains
  obtain ⟨pieceId, piece', hdoc, hpart, hout⟩ := gains_iff.mp hgains
  obtain ⟨piece, hpiece, hpart⟩ := h pieceId piece' hdoc hpart
  exact hout piece hpiece hpart

theorem gains_self (c : Cloud) : c.gains uid c = false :=
  gains_eq_false fun _ piece hdoc hpart => ⟨piece, hdoc, hpart⟩

theorem gains_store_message (c : Cloud) (recipientUid messageId : String) (fields : Option Fields) :
    c.gains uid (c.store (.userInbox recipientUid messageId) fields) = false := by
  apply gains_eq_false
  intro pieceId piece hdoc hpart
  rw [c.doc_store_of_ne (by simp)] at hdoc
  exact ⟨piece, hdoc, hpart⟩

/-- What the next operation of a call does to the messages and to who takes part. -/
inductive AdvanceEffect (s : Server) (call : RunningCall) (c' : Cloud) (next : AdminProgram Reply) :
    Prop where
  | quiet (hinbox : ∀ uid messageId message, c'.doc (.userInbox uid messageId) = some message →
        s.cloud.doc (.userInbox uid messageId) = some message)
      (hgains : ∀ uid, s.cloud.gains uid c' = false)
  | delivers {recipientUid messageId : String} {message : Fields} (hdelivers : call.Delivers messageId)
      (hcloud : c' = s.cloud.store (.userInbox recipientUid messageId) (some message))
      (hend : next.next? = none)
  | joins {uid messageId pieceId : String} {name email : Value} (haccepts : call.Accepts uid messageId)
      (hdelivered : Delivered messageId s)
      (hop : call.program.next? = some (.transaction (joinPiece uid name email pieceId)))
      (hinbox : ∀ uid messageId, c'.doc (.userInbox uid messageId) =
        s.cloud.doc (.userInbox uid messageId))
      (hnext : next.next? = some (.commit [.merge (.userInbox uid messageId) [("read", .bool true)]]) ∨
        c' = s.cloud)
  | consumes {uid messageId : String} {message : Fields} (hconsuming : call.Consuming uid messageId)
      (hdelivered : Delivered messageId s)
      (hcloud : c' = s.cloud.store (.userInbox uid messageId) (some message))
      (hread : message.read "read" = .bool true)

theorem AdvanceEffect.same {next : AdminProgram Reply} : AdvanceEffect s call s.cloud next :=
  .quiet (fun _ _ _ => id) fun _ => gains_self _

theorem advanceEffect_of_drops {op : Operation} {k : op.Response → AdminProgram Reply}
    (hprogram : call.program = .call op k) (hissues : call.program.Issues (fun _ _ => True) Drops)
    {next : AdminProgram Reply} : AdvanceEffect s call (op.perform s.cloud).2 next := by
  have hop := hissues.next (congrArg next? hprogram)
  refine .quiet (fun _ _ _ hdoc => inbox_perform_of_drops hop hdoc) fun uid => gains_eq_false ?_
  intro pieceId piece' hpiece' hpart
  have hadmits : s.cloud.Admits (fun _ _ => False) (op.perform s.cloud).2 := admits_of_drops hop s.cloud
  obtain ⟨piece, hpiece, -, hmembers⟩ := hadmits.pieces pieceId piece' hpiece'
  exact ⟨piece, hpiece, (hmembers uid hpart).resolve_right id⟩

theorem advanceEffect_of_sendInvite {auth : Option Token} {data : Fields} {now : Int}
    {program : AdminProgram Reply}
    (h : InviteStage emailKey (fun _ _ => True) auth data messageId now program) :
    AdvanceEffect s ⟨.sendInvite auth data messageId now, program⟩
        (program.advance Operation.perform s.cloud).2 (program.advance Operation.perform s.cloud).1 ∧
      InviteStage emailKey (fun _ _ => True) auth data messageId now
        (program.advance Operation.perform s.cloud).1 := by
  cases h with
  | asked =>
    obtain ⟨failure, hnext⟩ | ⟨token, pieceId, piece, key, hauth, hpiece, -, -, hnext⟩ :=
      sendInvite_advance emailKey auth data messageId now s.cloud
    · rw [hnext]
      exact ⟨.same, .ended rfl⟩
    · rw [hnext]
      exact ⟨.same, .checked hauth hpiece trivial⟩
  | @checked token pieceId key hauth hpiece _ =>
    refine ⟨.same, ?_⟩
    change InviteStage _ _ _ _ _ _
      (deliverInvite token pieceId messageId now (s.cloud.doc (.usersByEmail key)))
    obtain hdeliver | ⟨failure, hdeliver⟩ | ⟨recipientUid, email, name, hdeliver⟩ :=
      deliverInvite_cases token pieceId messageId now (s.cloud.doc (.usersByEmail key))
    · rw [hdeliver]
      exact .ended rfl
    · rw [hdeliver]
      exact .ended rfl
    · rw [hdeliver]
      exact .resolved hauth hpiece trivial
  | resolved => exact ⟨.delivers rfl rfl rfl, .ended rfl⟩
  | ended hend =>
    rw [advance_of_next_none _ hend]
    exact ⟨.same, .ended hend⟩

theorem advanceEffect_of_progress {auth : Option Token} {data : Fields} {token : Token}
    {program : AdminProgram Reply} (hauth : auth = some token)
    (hid : nonEmptyString? (data.read "messageId") = some messageId)
    (hdelivered : Delivered messageId s) (h : AcceptProgress token.uid messageId program) :
    AdvanceEffect s ⟨.acceptInvite auth data, program⟩
      (program.advance Operation.perform s.cloud).2 (program.advance Operation.perform s.cloud).1 := by
  subst hauth
  have haccepts : RunningCall.Accepts token.uid messageId
      ⟨.acceptInvite (some token) data, program⟩ := ⟨rfl, hid⟩
  cases h with
  | @joining name email pieceId message =>
    refine .joins haccepts hdelivered rfl ?_ ?_
    · intro uid' messageId'
      rw [advance_call_snd, Operation.doc_perform_of_not _
        (onlyWrites_joinPiece token.uid name email pieceId) (by simp)]
    · cases hrun : (joinPiece token.uid name email pieceId).run s.cloud with
      | error failure =>
        right
        rw [advance_call_snd]
        simp [Operation.perform, Cloud.settle, hrun]
      | ok c' =>
        left
        simp [Program.advance, Operation.perform, Cloud.settle, hrun, consumeInvite_eq, next?]
  | @consuming message =>
    exact .consumes ⟨haccepts, rfl⟩ hdelivered rfl (by simp [Fields.read_set])
  | ended hend =>
    rw [advance_of_next_none _ hend]
    exact .same

/-- What one operation of a call does, and where the call stands then. -/
theorem advance_effect (h : Delivering emailKey s) (hcall : call ∈ s.running) {op : Operation}
    {k : op.Response → AdminProgram Reply} (hprogram : call.program = .call op k) :
    AdvanceEffect s call (call.program.advance Operation.perform s.cloud).2
        (call.program.advance Operation.perform s.cloud).1 ∧
      CallDelivers emailKey s
        ⟨call.request, (call.program.advance Operation.perform s.cloud).1⟩ := by
  have hstands := h.calls call hcall
  obtain ⟨request, program⟩ := call
  cases request with
  | sendInvite auth data messageId now => exact advanceEffect_of_sendInvite hstands
  | acceptInvite auth data =>
    obtain hasked | ⟨token, messageId, hauth, hid, hprogress, hdelivered⟩ | hend := hstands
    · obtain rfl : program = acceptInvite auth data := hasked
      obtain ⟨hsame, hnext⟩ := acceptInvite_advance auth data s.cloud
      refine ⟨by rw [hsame]; exact .same, ?_⟩
      obtain hend | ⟨token, messageId, message, hauth, hid, hdoc, hprogress⟩ := hnext
      · exact .inr (.inr hend)
      · exact .inr (.inl ⟨token, messageId, hauth, hid, hprogress, h.stored _ _ _ hdoc⟩)
    · exact ⟨advanceEffect_of_progress hauth hid hdelivered hprogress,
        .inr (.inl ⟨token, messageId, hauth, hid, hprogress.advance _, hdelivered⟩)⟩
    · simp only at hprogram
      obtain rfl := hprogram
      cases hend
  | leavePiece auth data =>
    simp only at hprogram
    obtain rfl := hprogram
    rw [advance_call_snd]
    exact ⟨advanceEffect_of_drops rfl hstands,
      Issues.advance hstands Operation.perform s.cloud fun _ _ _ _ => trivial⟩
  | deleteAccount auth recent schedule =>
    simp only at hprogram
    obtain rfl := hprogram
    rw [advance_call_snd]
    exact ⟨advanceEffect_of_drops rfl hstands,
      Issues.advance hstands Operation.perform s.cloud fun _ _ _ _ => trivial⟩

theorem delivering_write {write : Write} (h : Delivering emailKey s)
    (hstep : step emailKey s (.write uid write) = some t) : Delivering emailKey t := by
  obtain ⟨hpermits, fields, hfields, rfl⟩ := write_step.mp hstep
  refine ⟨?_, h.unique, h.calls⟩
  intro recipientUid messageId message hdoc
  rw [Cloud.doc_store] at hdoc
  split_ifs at hdoc with hpath
  · cases hold : s.cloud.doc (.userInbox recipientUid messageId) with
    | some old => exact h.stored _ _ old hold
    | none =>
      -- the rules let nobody create a message
      rw [Cloud.permitsWrite, hfields, hdoc] at hpermits
      simp [← hpath, hold, Cloud.permits, Cloud.verdict, userInboxRule, deny] at hpermits
  · exact h.stored _ _ message hdoc

theorem getElem?_append_singleton {calls : List RunningCall} {last : RunningCall} {i : Nat}
    (h : (calls ++ [last])[i]? = some call) :
    calls[i]? = some call ∨ i = calls.length ∧ call = last := by
  rw [List.getElem?_append] at h
  split_ifs at h with hi
  · exact .inl h
  · obtain ⟨hlt, hget⟩ := List.getElem?_eq_some_iff.mp h
    simp only [List.length_singleton, Nat.lt_one_iff] at hlt
    right
    refine ⟨by omega, ?_⟩
    simpa [hlt] using hget.symm

theorem delivering_call {request : Request} (h : Delivering emailKey s)
    (hfresh : s.FreshIds (.call request)) : Delivering emailKey { s with
      running := s.running ++ [⟨request, request.program emailKey⟩] } := by
  have hmono : ∀ messageId, Delivered messageId s → Delivered messageId { s with
      running := s.running ++ [⟨request, request.program emailKey⟩] } := by
    rintro messageId ⟨sender, hsender, hdelivers⟩
    exact ⟨sender, List.mem_append_left _ hsender, hdelivers⟩
  have hnew : ∀ call ∈ s.running, ∀ messageId, call.Delivers messageId →
      ¬RunningCall.Delivers messageId ⟨request, request.program emailKey⟩ := by
    intro call hcall messageId hdelivers hnew
    cases request with
    | sendInvite auth data messageId' now =>
      obtain rfl : messageId' = messageId := hnew
      exact hfresh call hcall hdelivers
    | _ => exact hnew
  refine ⟨fun _ _ _ hdoc => hmono _ (h.stored _ _ _ hdoc), ?_, ?_⟩
  · intro i j call other messageId hi hj hdelivers hother
    obtain hi | ⟨rfl, rfl⟩ := getElem?_append_singleton hi
    all_goals obtain hj | ⟨rfl, rfl⟩ := getElem?_append_singleton hj
    · exact h.unique i j call other messageId hi hj hdelivers hother
    · exact absurd hother (hnew call (List.mem_of_getElem? hi) messageId hdelivers)
    · exact absurd hdelivers (hnew other (List.mem_of_getElem? hj) messageId hother)
    · rfl
  · intro call hcall
    obtain hcall | hcall := List.mem_append.mp hcall
    · exact (h.calls call hcall).mono hmono
    obtain rfl := List.mem_singleton.mp hcall
    cases request with
    | sendInvite auth data messageId now => exact InviteStage.asked
    | acceptInvite auth data => exact .inl rfl
    | leavePiece auth data =>
      exact issues_leavePiece (fun _ => trivial) (fun _ => .inl ⟨_, rfl⟩) auth data
        fun uid pieceId _ _ _ _ _ => .inr ⟨pieceId, uid, _, rfl⟩
    | deleteAccount auth recent schedule =>
      exact issues_deleteAccount (fun _ => trivial) (fun _ => trivial) (fun _ => .inl ⟨_, rfl⟩) auth
        recent schedule fun uid _ _ piece _ _ => ⟨uid, pieceIdOf piece.1, rfl⟩

theorem delivering_advance {i : Nat} {op : Operation} {k : op.Response → AdminProgram Reply}
    (h : Delivering emailKey s) (hi : s.running[i]? = some call)
    (hprogram : call.program = .call op k) : Delivering emailKey (s.advance i call) := by
  have hcall := List.mem_of_getElem? hi
  have hrun : call.program.next? ≠ none := by simp [hprogram, next?]
  obtain ⟨heffect, hstands⟩ := advance_effect h hcall hprogram
  have hmono : ∀ messageId, Delivered messageId s → Delivered messageId (s.advance i call) :=
    fun messageId hdelivered => hdelivered.of_running hi hrun rfl
  have hset : (s.advance i call).running = s.running.set i
      ⟨call.request, (call.program.advance Operation.perform s.cloud).1⟩ := rfl
  have hat : (s.advance i call).running[i]? =
      some ⟨call.request, (call.program.advance Operation.perform s.cloud).1⟩ := by
    rw [hset, List.getElem?_set_self (List.getElem?_eq_some_iff.mp hi).1]
  refine ⟨?_, ?_, ?_⟩
  · intro uid messageId message hdoc
    change (call.program.advance Operation.perform s.cloud).2.doc _ = _ at hdoc
    cases heffect with
    | quiet hinbox _ => exact hmono _ (h.stored _ _ _ (hinbox _ _ _ hdoc))
    | delivers hdelivers hcloud hend =>
      rw [hcloud, Cloud.doc_store] at hdoc
      split_ifs at hdoc with hpath
      · obtain ⟨-, rfl⟩ := DocPath.userInbox.inj hpath
        exact ⟨_, List.mem_of_getElem? hat, hdelivers, hend⟩
      · exact hmono _ (h.stored _ _ _ hdoc)
    | joins _ _ _ hinbox _ =>
      rw [hinbox] at hdoc
      exact hmono _ (h.stored _ _ _ hdoc)
    | consumes _ hdelivered hcloud _ =>
      rw [hcloud, Cloud.doc_store] at hdoc
      split_ifs at hdoc with hpath
      · obtain ⟨-, rfl⟩ := DocPath.userInbox.inj hpath
        exact hmono _ hdelivered
      · exact hmono _ (h.stored _ _ _ hdoc)
  · -- the calls keep their requests
    have hrequest : ∀ (j : Nat) (other : RunningCall), (s.advance i call).running[j]? = some other →
        ∃ before, s.running[j]? = some before ∧ ∀ messageId, other.Delivers messageId →
          before.Delivers messageId := by
      intro j other hj
      by_cases hij : i = j
      · subst hij
        obtain rfl := Option.some.inj (hat.symm.trans hj)
        exact ⟨call, hi, fun _ => id⟩
      · rw [hset, List.getElem?_set_ne hij] at hj
        exact ⟨other, hj, fun _ => id⟩
    intro j j' first second messageId hj hj' hfirst hsecond
    obtain ⟨before, hbefore, hdelivers⟩ := hrequest j first hj
    obtain ⟨before', hbefore', hdelivers'⟩ := hrequest j' second hj'
    exact h.unique j j' before before' messageId hbefore hbefore' (hdelivers _ hfirst)
      (hdelivers' _ hsecond)
  · intro other hother
    obtain hother | rfl := List.mem_or_eq_of_mem_set hother
    · exact (h.calls other hother).mono hmono
    · exact hstands.mono hmono

theorem delivering_step {event : ServerEvent} (h : Delivering emailKey s) (hfresh : s.FreshIds event)
    (hstep : step emailKey s event = some t) : Delivering emailKey t := by
  cases event with
  | write uid write => exact delivering_write h hstep
  | call request =>
    obtain rfl := Option.some.inj hstep
    exact delivering_call h hfresh
  | advance i =>
    obtain ⟨call, op, k, hi, hprogram, rfl⟩ := advance_step.mp hstep
    exact delivering_advance h hi hprogram

/-! ## A used message stays used -/

theorem Used.of_running {i : Nat} {next : AdminProgram Reply}
    (h : ∃ other ∈ s.running, other.Consuming uid messageId) (hi : s.running[i]? = some call)
    (hnot : ¬call.Consuming uid messageId) (ht : t.running = s.running.set i ⟨call.request, next⟩) :
    ∃ other ∈ t.running, other.Consuming uid messageId := by
  obtain ⟨other, hother, hconsuming⟩ := h
  obtain ⟨j, hj⟩ := List.mem_iff_getElem?.mp hother
  refine ⟨other, List.mem_iff_getElem?.mpr ⟨j, ?_⟩, hconsuming⟩
  rw [ht, List.getElem?_set_ne, hj]
  rintro rfl
  obtain rfl := Option.some.inj (hi.symm.trans hj)
  exact hnot hconsuming

theorem delivered_step {event : ServerEvent} (h : Delivered messageId s)
    (hstep : step emailKey s event = some t) : Delivered messageId t := by
  cases event with
  | write uid write =>
    obtain ⟨-, fields, -, rfl⟩ := write_step.mp hstep
    exact h
  | call request =>
    obtain rfl := Option.some.inj hstep
    obtain ⟨sender, hsender, hdelivers⟩ := h
    exact ⟨sender, List.mem_append_left _ hsender, hdelivers⟩
  | advance i =>
    obtain ⟨call, op, k, hi, hprogram, rfl⟩ := advance_step.mp hstep
    exact h.of_running hi (by simp [hprogram, next?]) rfl

theorem used_step {event : ServerEvent} (h : Delivering emailKey s) (hdelivered : Delivered messageId s)
    (hkeeps : s.ConsumesOnce event) (hstep : step emailKey s event = some t)
    (hused : s.Used uid messageId) : t.Used uid messageId := by
  cases event with
  | write client write =>
    obtain ⟨hpermits, fields, hfields, rfl⟩ := write_step.mp hstep
    obtain hread | hconsuming := hused
    · left
      intro message hdoc
      rw [Cloud.doc_store] at hdoc
      split_ifs at hdoc with hpath
      · subst hdoc
        cases hold : s.cloud.doc (.userInbox uid messageId) with
        | none =>
          rw [Cloud.permitsWrite, hfields] at hpermits
          simp [← hpath, hold, Cloud.permits, Cloud.verdict, userInboxRule, deny] at hpermits
        | some old =>
          obtain rfl : client = uid := by
            rw [Cloud.permitsWrite, hfields] at hpermits
            simpa [← hpath, hold, Cloud.permits, Cloud.verdict, userInboxRule, holds_eq, eq_comm]
              using hpermits
          rw [← hpath, hold] at hfields
          exact hkeeps messageId old hpath.symm (hpath ▸ hold) (hread old hold) message hfields
      · exact hread message hdoc
    · exact .inr hconsuming
  | call request =>
    obtain rfl := Option.some.inj hstep
    obtain hread | ⟨other, hother, hconsuming⟩ := hused
    · exact .inl hread
    · exact .inr ⟨other, List.mem_append_left _ hother, hconsuming⟩
  | advance i =>
    obtain ⟨call, op, k, hi, hprogram, rfl⟩ := advance_step.mp hstep
    have hcall := List.mem_of_getElem? hi
    have hrun : call.program.next? ≠ none := by simp [hprogram, next?]
    obtain ⟨heffect, -⟩ := advance_effect h hcall hprogram
    by_cases hconsuming : call.Consuming uid messageId
    · -- its only operation marks the message read
      left
      intro message hdoc
      rw [advance_cloud hprogram] at hdoc
      obtain rfl := Option.some.inj ((congrArg next? hprogram).symm.trans hconsuming.2)
      rw [Operation.perform_write] at hdoc
      simp only [Write.result, Write.path, Cloud.doc_store_self, Option.some.injEq] at hdoc
      subst hdoc
      simp [Fields.read_set]
    obtain hread | hother := hused
    · left
      intro message hdoc
      change (call.program.advance Operation.perform s.cloud).2.doc _ = _ at hdoc
      cases heffect with
      | quiet hinbox _ => exact hread message (hinbox _ _ _ hdoc)
      | delivers hdelivers hcloud _ =>
        rw [hcloud, Cloud.doc_store] at hdoc
        split_ifs at hdoc with hpath
        · obtain ⟨-, rfl⟩ := DocPath.userInbox.inj hpath
          obtain ⟨sender, hsender, hsends, hended⟩ := hdelivered
          obtain ⟨j, hj⟩ := List.mem_iff_getElem?.mp hsender
          obtain rfl := h.unique i j call sender _ hi hj hdelivers hsends
          obtain rfl := Option.some.inj (hi.symm.trans hj)
          exact absurd hended hrun
        · exact hread message hdoc
      | joins _ _ _ hinbox _ =>
        rw [hinbox] at hdoc
        exact hread message hdoc
      | consumes _ _ hcloud hmarked =>
        rw [hcloud, Cloud.doc_store] at hdoc
        split_ifs at hdoc
        · obtain rfl := Option.some.inj hdoc
          exact hmarked
        · exact hread message hdoc
    · exact .inr (Used.of_running hother hi hconsuming rfl)

/-! ## At most one join -/

/-- A call that adds its recipient is about to mark the message read then. -/
theorem used_of_joins {event : ServerEvent} (h : Delivering emailKey s)
    (hjoins : s.joins uid messageId event = true) (hstep : step emailKey s event = some t) :
    t.Used uid messageId ∧ Delivered messageId s := by
  cases event with
  | write client write => cases hjoins
  | call request => cases hjoins
  | advance i =>
    obtain ⟨call, op, k, hi, hprogram, rfl⟩ := advance_step.mp hstep
    have hcall := List.mem_of_getElem? hi
    simp only [joins, hi, Bool.and_eq_true, decide_eq_true_eq] at hjoins
    obtain ⟨haccepts, hgains⟩ := hjoins
    obtain ⟨heffect, -⟩ := advance_effect h hcall hprogram
    change s.cloud.gains uid (call.program.advance Operation.perform s.cloud).2 = true at hgains
    cases heffect with
    | quiet _ hnone => simp [hnone uid] at hgains
    | delivers _ hcloud _ => simp [hcloud, gains_store_message] at hgains
    | joins haccepts' hdelivered _ _ hnext =>
      obtain ⟨rfl, rfl⟩ := haccepts.unique haccepts'
      obtain hnext | hsame := hnext
      · have hat : (s.advance i call).running[i]? =
            some ⟨call.request, (call.program.advance Operation.perform s.cloud).1⟩ :=
          List.getElem?_set_self (List.getElem?_eq_some_iff.mp hi).1
        exact ⟨.inr ⟨_, List.mem_of_getElem? hat, haccepts, hnext⟩, hdelivered⟩
      · simp [hsame, gains_self] at hgains
    | consumes _ _ hcloud _ => simp [hcloud, gains_store_message] at hgains

theorem joins_eq_false {event : ServerEvent} (h : Delivering emailKey s)
    (honce : s.ConsumesOnce event) (hused : s.Used uid messageId) :
    s.joins uid messageId event = false := by
  rw [Bool.eq_false_iff]
  intro hjoins
  cases event with
  | write client write => cases hjoins
  | call request => cases hjoins
  | advance i =>
    cases hi : s.running[i]? with
    | none => simp [joins, hi] at hjoins
    | some call =>
      simp only [joins, hi, Bool.and_eq_true, decide_eq_true_eq] at hjoins
      obtain ⟨haccepts, hgains⟩ := hjoins
      change s.cloud.gains uid (call.program.advance Operation.perform s.cloud).2 = true at hgains
      cases hprogram : call.program with
      | done reply => simp [hprogram, Program.advance, gains_self] at hgains
      | fail failure => simp [hprogram, Program.advance, gains_self] at hgains
      | call op k =>
        obtain ⟨heffect, -⟩ := advance_effect h (List.mem_of_getElem? hi) hprogram
        cases heffect with
        | quiet _ hnone => simp [hnone uid] at hgains
        | delivers _ hcloud _ => simp [hcloud, gains_store_message] at hgains
        | consumes _ _ hcloud _ => simp [hcloud, gains_store_message] at hgains
        | @joins _ _ pieceId name email haccepts' _ hop _ _ =>
          obtain ⟨rfl, rfl⟩ := haccepts.unique haccepts'
          have hout : ∀ piece, s.cloud.doc (.pieces pieceId) = some piece → ¬TakesPart piece uid := by
            obtain rfl := Option.some.inj ((congrArg next? hprogram).symm.trans hop)
            obtain ⟨gained, piece', hdoc, hpart, hout⟩ := gains_iff.mp hgains
            rw [hprogram, advance_call_snd] at hdoc
            by_cases hpath : gained = pieceId
            · exact hpath ▸ hout
            · rw [Operation.doc_perform_of_not _ (onlyWrites_joinPiece uid name email pieceId)
                (by simp [hpath])] at hdoc
              exact absurd hpart (hout piece' hdoc)
          obtain ⟨⟨message, hmessage, hunread⟩, hidle⟩ :=
            honce call uid messageId name email pieceId hi haccepts hop hout
          obtain hread | ⟨other, hother, hconsuming⟩ := hused
          · exact hunread (hread message hmessage)
          · exact hidle other hother hconsuming

/-- In a run whose clients leave used messages read, and whose calls on one message do not overlap,
a message adds its recipient to a piece at most once. -/
theorem joins_at_most_once (emailKey : String → String) (uid messageId : String)
    {events : List ServerEvent} (hfresh : EachStep (step emailKey) FreshIds initial events)
    (honce : EachStep (step emailKey) ConsumesOnce initial events) :
    countSteps (step emailKey) (joins uid messageId) initial events ≤ 1 := by
  let cond (s : Server) (e : ServerEvent) : Prop := s.FreshIds e ∧ s.ConsumesOnce e
  let used (s : Server) : Prop := s.Used uid messageId ∧ Delivered messageId s
  have hkept : ∀ s e t, Delivering emailKey s → cond s e → step emailKey s e = some t →
      Delivering emailKey t := fun s e t h hc hstep => delivering_step h hc.1 hstep
  have hused : ∀ s e t, Delivering emailKey s → cond s e → step emailKey s e = some t → used s →
      used t := fun s e t h hc hstep hu =>
    ⟨used_step h hu.2 hc.2 hstep hu.1, delivered_step hu.2 hstep⟩
  have hnot : ∀ s e, Delivering emailKey s → cond s e → used s → joins uid messageId s e = false :=
    fun s e h hc hu => joins_eq_false h hc.2 hu.1
  refine countSteps_le_one hkept hused hnot ?_ delivering_initial (hfresh.and honce)
  intro s e t h _ hjoins hstep
  obtain ⟨hu, hdelivered⟩ := used_of_joins h hjoins hstep
  exact ⟨hu, delivered_step hdelivered hstep⟩

/-! ## Two more runs -/

/-- `bob` leaves the sonata, takes the message for unread and accepts it once more. -/
def bobReturns : List ServerEvent :=
  [.call (.leavePiece (some ⟨"bob", none, none⟩) [("pieceId", .string "sonata")]),
    .advance 2, .advance 2, .advance 2,
    .write "bob" (.update (.userInbox "bob" "message") [("read", .set (.bool false))]),
    .call (.acceptInvite (some ⟨"bob", none, none⟩) [("messageId", .string "message")]),
    .advance 3, .advance 3, .advance 3]

/-- The next operation of some call is a transaction. -/
def anyJoining (s : Server) : Bool :=
  s.running.any fun running =>
    match running.program.next? with
    | some (.transaction _) => true
    | _ => false

/-- The next operation of some call is a commit. -/
def anyCommitting (s : Server) : Bool :=
  s.running.any fun running =>
    match running.program.next? with
    | some (.commit _) => true
    | _ => false

/-- `ann`'s call is the only one that generates an id. -/
theorem freshIds_annInvites (events : List ServerEvent)
    (h : ∀ event ∈ events, ∀ s, FreshIds s event) :
    EachStep (step id) FreshIds initial (annInvites ++ events) := by
  refine EachStep.of_take fun i hi t hrun => ?_
  by_cases hcall : i = 3
  · subst hcall
    have hnone : (run (step id) initial (annInvites.take 3)).all (fun s => s.running.isEmpty) = true := by
      decide +kernel
    rw [List.take_append_of_le_length (by decide)] at hrun
    rw [hrun] at hnone
    have hempty : t.running = [] := List.isEmpty_iff.mp hnone
    intro call hcall
    simp [hempty] at hcall
  · by_cases hlate : 7 ≤ i
    · have hbound : i - 7 < events.length := by
        simp only [annInvites, List.length_append, List.length_cons, List.length_nil] at hi
        omega
      have hget : (annInvites ++ events)[i] = events[i - 7] := List.getElem_append_right hlate
      rw [hget]
      exact h _ (List.getElem_mem _) t
    · have hi' : i < 7 := by omega
      interval_cases i <;> trivial

theorem joins_at_most_once_bob :
    EachStep (step id) ConsumesOnce initial (annInvites ++ bobAccepts) ∧
      countSteps (step id) (joins "bob" "message") initial (annInvites ++ bobAccepts) ≤ 1 := by
  have hidle : ∀ (s : Server), s.anyJoining = false → ∀ i, s.ConsumesOnce (.advance i) := by
    intro s hnone i call uid messageId name email pieceId hi _ hop
    have := List.any_eq_false.mp hnone call (List.mem_of_getElem? hi)
    simp [hop] at this
  have hnojoin : ∀ i ∈ [4, 5, 6, 8, 10], (run (step id) initial
      ((annInvites ++ bobAccepts).take i)).all (fun s => !s.anyJoining) = true := by decide +kernel
  have hjoin : (run (step id) initial ((annInvites ++ bobAccepts).take 9)).all (fun s =>
      s.running[1]?.all (fun accept => accept.Accepts "bob" "message") &&
      (s.cloud.doc (.userInbox "bob" "message")).any (fun message =>
        message.read "read" ≠ .bool true) && !s.anyCommitting) = true := by decide +kernel
  have honce : EachStep (step id) ConsumesOnce initial (annInvites ++ bobAccepts) := by
    refine EachStep.of_take fun i hi t hrun => ?_
    change i < 11 at hi
    have hall : i ∈ [4, 5, 6, 8, 10] → t.anyJoining = false := by
      intro hmem
      have := hnojoin i hmem
      rw [hrun] at this
      simpa using this
    interval_cases i
    case «3» => trivial
    case «7» => trivial
    case «9» =>
      -- `bob`'s call joins, and the message is still unread
      rw [hrun] at hjoin
      simp only [Option.all_some, Bool.and_eq_true, Bool.not_eq_true'] at hjoin
      obtain ⟨⟨hbob, hunread⟩, hnone⟩ := hjoin
      intro call uid messageId name email pieceId hi haccepts _ _
      rw [hi] at hbob
      obtain ⟨rfl, rfl⟩ := haccepts.unique (of_decide_eq_true hbob)
      obtain ⟨message, hmessage, hunread⟩ := (Option.any_eq_true _ _).mp hunread
      refine ⟨⟨message, hmessage, of_decide_eq_true hunread⟩, ?_⟩
      intro other hother hconsuming
      have := List.any_eq_false.mp hnone other hother
      simp [hconsuming.2] at this
    all_goals first
      | exact hidle t (hall (by simp)) _
      | exact fun messageId old hpath => nomatch hpath
  have hfresh := freshIds_annInvites bobAccepts (by simp [bobAccepts, FreshIds])
  exact ⟨honce, joins_at_most_once id "bob" "message" hfresh honce⟩

theorem joined_twice :
    EachStep (step id) FreshIds initial (annInvites ++ (bobAccepts ++ bobReturns)) ∧
      ¬countSteps (step id) (joins "bob" "message") initial
        (annInvites ++ (bobAccepts ++ bobReturns)) ≤ 1 := by
  exact ⟨freshIds_annInvites _ (by simp [bobAccepts, bobReturns, FreshIds]), by decide +kernel⟩

end Server

end Duet
