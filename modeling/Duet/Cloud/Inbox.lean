import Duet.Cloud.Authorship

/-!
# Where a message comes from

Clients create no messages. So each message in an inbox was sent there by one of two functions: an
invite by the owner of a piece to an account that lets itself be found, or a nudge between two
participants of a piece. What it says has not changed since, unless its recipient has written to it.

## Main definitions

* `Backend.Delivers` — the call delivers the message, going by the documents of a run.
* `Backend.Touches` — the recipient writes to the message.
* `Backend.Delivered` — a call of the run has delivered the message.

## Main results

* `Backend.inbox_delivered` — every new message has been delivered.
-/

namespace Duet

open Lib Program

namespace Backend

/-! ## Deliveries -/

section

variable (emailKey : String → String) (s₀ : Backend) (events : List BackendEvent)

/-- The document was stored at some point of the run. -/
def Stored (path : DocPath) (fields : Fields) : Prop :=
  ∃ t, Visits (step emailKey) s₀ events t ∧ t.state.doc path = some fields

/-- The call invites, on behalf of the owner of the piece, an account that can be found. -/
def Invites (recipientUid messageId : String) (message : Fields) (job : Job) : Prop :=
  ∃ token data now pieceId email piece entry,
    job = .request (.sendInvite (some token) data messageId now) ∧
    Stored emailKey s₀ events (.pieces pieceId) piece ∧ piece.read "ownerId" = .string token.uid ∧
    Stored emailKey s₀ events (.usersByEmail (emailKey email)) entry ∧
    entry.read "discoverable" = .bool true ∧ entry.read "uid" = .string recipientUid ∧
    message = inviteMessage recipientUid token pieceId now

/-- The call nudges, on behalf of a participant of the piece, another. -/
def Nudges (recipientUid messageId : String) (message : Fields) (job : Job) : Prop :=
  ∃ token data messageIds now pieceId piece,
    job = .sendNudge (some token) data messageIds now ∧
    Stored emailKey s₀ events (.pieces pieceId) piece ∧ TakesPart piece token.uid ∧
    TakesPart piece recipientUid ∧ recipientUid ≠ token.uid ∧ (∃ i, messageIds i = messageId) ∧
    message = nudgeMessage recipientUid (token.name.getD "Someone") pieceId now

/-- The call delivers the message, going by documents that were stored in the run. -/
def Delivers (recipientUid messageId : String) (message : Fields) (job : Job) : Prop :=
  Invites emailKey s₀ events recipientUid messageId message job ∨
    Nudges emailKey s₀ events recipientUid messageId message job

/-- The recipient accepts an invite with the message, which was stored in the run. -/
def Accepts (uid messageId : String) (job : Job) : Prop :=
  (∃ token data, job = .request (.acceptInvite (some token) data) ∧ token.uid = uid ∧
    data.read "messageId" = .string messageId) ∧
    ∃ message, Stored emailKey s₀ events (.userInbox uid messageId) message

/-- What the call writes to a message. -/
def Posts (job : Job) (write : Write) : Prop := ∀ uid messageId, write.path = .userInbox uid messageId →
  write = .delete (.userInbox uid messageId) ∨
    (∃ message, write = .set (.userInbox uid messageId) message ∧
      Delivers emailKey s₀ events uid messageId message job) ∨
    Accepts emailKey s₀ events uid messageId job

/-- The operation writes to messages what the call may write. -/
def Mails (job : Job) : Operation → Prop
  | .get _ | .list _ => True
  | .commit writes => ∀ write ∈ writes, Posts emailKey s₀ events job write
  | .transaction body => body.OnlyWrites fun path => ∀ uid messageId, path ≠ .userInbox uid messageId

end

variable {emailKey : String → String} {s₀ s t : Backend} {events : List BackendEvent} {job : Job}
  {uid messageId : String} {message : Fields} {c c' : Cloud} {path : DocPath} {fields : Fields}

/-! ## What the functions write to messages -/

theorem posts_of_ne {write : Write} (h : ∀ uid messageId, write.path ≠ .userInbox uid messageId) :
    Posts emailKey s₀ events job write :=
  fun uid messageId hpath => absurd hpath (h uid messageId)

theorem posts_delete (path : DocPath) : Posts emailKey s₀ events job (.delete path) := by
  rintro uid messageId rfl
  exact .inl rfl

theorem mails_delete (path : DocPath) : Mails emailKey s₀ events job (.commit [.delete path]) := by
  intro write hwrite
  obtain rfl := List.mem_singleton.mp hwrite
  exact posts_delete path

theorem mails_of_onlyWrites {paths : DocPath → Prop} {op : Operation} (h : op.OnlyWrites paths)
    (hpaths : ∀ uid messageId, ¬paths (.userInbox uid messageId)) :
    Mails emailKey s₀ events job op := by
  have hother (path : DocPath) (hpath : paths path) :
      ∀ uid messageId, path ≠ .userInbox uid messageId := by
    rintro uid messageId rfl
    exact hpaths uid messageId hpath
  cases op with
  | get _ => trivial
  | list _ => trivial
  | commit writes => exact fun write hwrite => posts_of_ne (hother _ (h write hwrite))
  | transaction body => exact h.mono hother

/-- What a job has read was stored. -/
theorem stored_of_answered {doc : Option Fields} {fields : Fields}
    (h : Jobs.Answered (Job.program emailKey) Operation.perform commits s₀ events (.get path) doc)
    (hdoc : doc = some fields) : Stored emailKey s₀ events path fields := by
  obtain ⟨t, hvisits, hread⟩ := h
  exact ⟨t, hvisits, (Except.ok.inj hread).trans hdoc⟩

theorem nonEmptyString_eq_some {value : Value} {str : String} (h : nonEmptyString? value = some str) :
    value = .string str := by
  cases value with
  | string str' =>
    rw [nonEmptyString?] at h
    split_ifs at h
    rw [Option.some.inj h]
  | _ => cases h

theorem mails_sendInvite (auth : Option Token) (data : Fields) (now : Int) :
    (sendInvite emailKey auth data messageId now).Issues
      (Jobs.Answered (Job.program emailKey) Operation.perform commits s₀ events)
      (Mails emailKey s₀ events (.request (.sendInvite auth data messageId now))) := by
  refine Issues.orFail_bind fun token htoken => (Issues.orFail _ _).bind fun pieceId =>
    (Issues.orFail _ _).bind fun inviteeEmail =>
      .perform_bind trivial fun (piece : Option Fields) hpiece => ?_
  cases piece with
  | none => trivial
  | some piece =>
    rw [checkOwner]
    split_ifs with howner
    · trivial
    refine .perform_bind trivial fun (entry : Option Fields) hentry => ?_
    cases entry with
    | none => trivial
    | some entry =>
      rw [deliverInvite]
      split_ifs with hdiscoverable
      · trivial
      refine Issues.orFail_bind fun recipientUid huid => ⟨?_, fun _ _ => trivial⟩
      intro write hwrite uid messageId' hpath
      obtain rfl := List.mem_singleton.mp hwrite
      obtain ⟨rfl, rfl⟩ := DocPath.userInbox.inj hpath
      refine .inr (.inl ⟨_, rfl, .inl ⟨token, data, now, pieceId, inviteeEmail, piece, entry, ?_,
        stored_of_answered hpiece rfl, not_not.mp howner, stored_of_answered hentry rfl,
        not_not.mp hdiscoverable, ?_, rfl⟩⟩)
      · rw [htoken]
      · cases hvalue : entry.read "uid" with
        | string str =>
          rw [hvalue] at huid
          rw [Option.some.inj huid]
        | _ => simp [hvalue, Value.asString] at huid

theorem mails_sendNudge (auth : Option Token) (data : Fields) (messageIds : Nat → String)
    (now : Int) :
    (sendNudge auth data messageIds now).Issues
      (Jobs.Answered (Job.program emailKey) Operation.perform commits s₀ events)
      (Mails emailKey s₀ events (.sendNudge auth data messageIds now)) := by
  refine Issues.orFail_bind fun token htoken => (Issues.orFail _ _).bind fun pieceId =>
    .perform_bind trivial fun (doc : Option Fields) hpiece => ?_
  refine Issues.orFail_bind fun piece hdoc => Issues.orFail_bind fun participantIds hparts => ?_
  split_ifs with hsender
  · refine Issues.orFail_bind fun recipients hrecipients => ⟨?_, fun _ _ => trivial⟩
    intro write hwrite uid messageId hpath
    obtain ⟨i, hi, rfl⟩ := List.mem_mapIdx.mp hwrite
    obtain ⟨huid, hid⟩ := DocPath.userInbox.inj hpath
    obtain ⟨value, hmem, hstring⟩ := exists_of_mem_mapM hrecipients (List.getElem_mem hi)
    obtain rfl : value = .string recipients[i] := by
      cases value with
      | string str => rw [Option.some.inj hstring]
      | _ => cases hstring
    have hmem := List.mem_filter.mp hmem
    have hother : recipients[i] ≠ token.uid := by simpa using hmem.2
    rw [huid] at hother hmem
    refine .inr (.inl ⟨_, by rw [huid, hid], .inr ⟨token, data, messageIds, now, pieceId, piece, ?_,
      stored_of_answered hpiece hdoc, (takesPart_iff_mem hparts).mpr (List.contains_iff_mem.mp hsender),
      (takesPart_iff_mem hparts).mpr hmem.1, hother, ⟨i, hid⟩, rfl⟩⟩)
    rw [htoken]
  · trivial

theorem mails_acceptInvite (auth : Option Token) (data : Fields) :
    (acceptInvite auth data).Issues
      (Jobs.Answered (Job.program emailKey) Operation.perform commits s₀ events)
      (Mails emailKey s₀ events (.request (.acceptInvite auth data))) := by
  refine Issues.orFail_bind fun token htoken => Issues.orFail_bind fun messageId hid =>
    .perform_bind trivial fun (message : Option Fields) hmessage => ?_
  cases message with
  | none => trivial
  | some message =>
    have hmerge : Mails emailKey s₀ events (.request (.acceptInvite auth data))
        (.commit [.merge (.userInbox token.uid messageId) [("read", .bool true)]]) := by
      intro write hwrite uid messageId' hpath
      obtain rfl := List.mem_singleton.mp hwrite
      obtain ⟨rfl, rfl⟩ := DocPath.userInbox.inj hpath
      refine .inr (.inr ⟨⟨token, data, ?_, rfl, nonEmptyString_eq_some hid⟩, message,
        stored_of_answered hmessage rfl⟩)
      rw [htoken]
    rw [useInvite]
    split_ifs
    · trivial
    · trivial
    split
    · exact ⟨hmerge, fun _ _ => trivial⟩
    · refine ⟨?_, fun _ _ => ⟨hmerge, fun _ _ => trivial⟩⟩
      exact mails_of_onlyWrites (onlyWrites_joinPiece _ _ _ _) (by simp)

/-- Each call writes to messages what it may. -/
theorem mails_job (job : Job) :
    (job.program emailKey).Issues
      (Jobs.Answered (Job.program emailKey) Operation.perform commits s₀ events)
      (Mails emailKey s₀ events job) := by
  cases job with
  | request r =>
    refine Issues.bind ?_ fun _ => trivial
    cases r with
    | sendInvite auth data messageId now => exact mails_sendInvite auth data now
    | acceptInvite auth data => exact mails_acceptInvite auth data
    | leavePiece auth data =>
      refine issues_leavePiece (fun _ => trivial) mails_delete auth data fun uid pieceId _ _ _ _ _ => ?_
      intro write hwrite
      obtain rfl := List.mem_singleton.mp hwrite
      exact posts_of_ne (by simp [Write.path])
    | deleteAccount auth recent schedule =>
      refine issues_deleteAccount (fun _ => trivial) (fun _ => trivial) mails_delete auth recent
        schedule fun uid _ _ _ _ _ => ?_
      exact mails_of_onlyWrites (onlyWrites_dropFromPiece uid _) (by simp)
  | lookupEmail auth data now =>
    refine (issues_lookupEmail (fun _ => trivial) emailKey auth data now fun uid => ?_).bind
      fun _ => trivial
    exact mails_of_onlyWrites (onlyWrites_takeCall uid now) (by simp)
  | sendNudge auth data messageIds now => exact mails_sendNudge auth data messageIds now
  | activity activity now =>
    refine issues_trigger activity now fun editorUid => ⟨fun write hwrite => posts_of_ne ?_,
      fun _ _ => trivial⟩
    obtain rfl | hwrite := List.mem_cons.mp hwrite
    · simp [Write.path]
    · obtain rfl := List.mem_singleton.mp hwrite
      simp [Write.path]
  | pieceDeleted pieceId schedule => exact issues_onPieceDeleted trivial mails_delete schedule
  | gcTombstones cutoff =>
    refine ((issues_sweepTombstonesBefore cutoff).mono fun op hop => ?_).bind fun _ => trivial
    cases op with
    | list query => trivial
    | commit writes =>
      obtain ⟨deleted, rfl⟩ := hop
      exact mails_delete deleted
    | _ => exact hop.elim

/-! ## One step -/

/-- A document after a batch is the one before it, or what one of the writes has left. -/
theorem doc_commit_cases {writes : List Write} (hok : c.commit writes = .ok c')
    (hdoc : c'.doc path = some fields) : c.doc path = some fields ∨
      ∃ write ∈ writes, write.path = path ∧ ∃ old, write.result old = .ok (some fields) := by
  refine Cloud.doc_commit_invariant (P := fun doc => doc = some fields → c.doc path = some fields ∨
    ∃ write ∈ writes, write.path = path ∧ ∃ old, write.result old = .ok (some fields))
    (fun write hwrite hpath old new _ hresult hnew => ?_) hok .inl hdoc
  exact .inr ⟨write, hwrite, hpath, old, hnew ▸ hresult⟩

/-- A message after an operation is the one before it, or the call delivers or accepts it. -/
theorem mails_perform {op : Operation} (h : Mails emailKey s₀ events job op)
    (hmessage : (op.perform c).2.doc (.userInbox uid messageId) = some message) :
    c.doc (.userInbox uid messageId) = some message ∨
      Delivers emailKey s₀ events uid messageId message job ∨
        Accepts emailKey s₀ events uid messageId job := by
  cases op with
  | get _ => exact .inl hmessage
  | list _ => exact .inl hmessage
  | transaction body =>
    have hbody : body.OnlyWrites fun path => ∀ uid messageId, path ≠ .userInbox uid messageId := h
    rw [@Operation.doc_perform_of_not c _ (.transaction body) _ hbody
      (fun hpath => hpath uid messageId rfl)] at hmessage
    exact .inl hmessage
  | commit writes =>
    cases hok : c.commit writes with
    | error failure =>
      rw [Operation.perform, hok] at hmessage
      exact .inl hmessage
    | ok c' =>
      rw [Operation.perform, hok] at hmessage
      obtain hold | ⟨write, hwrite, hpath, old, hresult⟩ := doc_commit_cases hok hmessage
      · exact .inl hold
      · obtain rfl | ⟨sent, rfl, hdelivers⟩ | haccepts := h write hwrite uid messageId hpath
        · cases hresult
        · obtain rfl := Option.some.inj (Except.ok.inj hresult)
          exact .inr (.inl hdelivers)
        · exact .inr (.inr haccepts)

/-- The recipient writes to the message, themselves or in accepting it. -/
def Touches (emailKey : String → String) (s₀ : Backend) (events : List BackendEvent)
    (uid messageId : String) (t : Backend) : BackendEvent → Prop
  | .environment batch =>
    batch.uid = uid ∧ ∃ write ∈ batch.writes, write.path = .userInbox uid messageId
  | .advance i => ∃ running, t.running[i]? = some running ∧
    Accepts emailKey s₀ events uid messageId running.job
  | _ => False

/-- A message after a step is the one before it, or the step delivers it, or its recipient writes to
one that is there. -/
theorem message_step {e : BackendEvent} {u : Backend} (hidle : s₀.running = [])
    (hr : run (step emailKey) s₀ events = some t) (hstep : step emailKey t e = some u)
    (hmessage : u.state.doc (.userInbox uid messageId) = some message) :
    t.state.doc (.userInbox uid messageId) = some message ∨
      (∃ i running, e = .advance i ∧ t.running[i]? = some running ∧
        Delivers emailKey s₀ events uid messageId message running.job) ∨
      Touches emailKey s₀ events uid messageId t e ∧
        ∃ old, Stored emailKey s₀ events (.userInbox uid messageId) old := by
  cases e with
  | environment batch =>
    obtain ⟨c', hok, rfl⟩ := Jobs.environment_step.mp hstep
    have hshown : c'.shows (.userInbox uid messageId) id = some message := by
      rw [Cloud.shows, Option.map_id]
      exact hmessage
    obtain hold | ⟨write, hwrite, hpath, fields, -, hpermits⟩ := shows_commits hok hshown
    · rw [Cloud.shows, Option.map_id] at hold
      exact .inl hold
    · split_ifs at hpermits with hthere
      · obtain ⟨old, hold⟩ := Option.isSome_iff_exists.mp hthere
        have hrule : (userInboxRule (some batch.uid) uid (.update fields)).Holds := hpermits
        have huid : uid = batch.uid := by simpa [userInboxRule, Verdict.holds_eq] using hrule
        exact .inr (.inr ⟨⟨huid.symm, write, hwrite, hpath⟩, old, t, ⟨events, List.prefix_rfl, hr⟩,
          hold⟩)
      · cases hpermits
  | start job =>
    obtain rfl := Jobs.start_step.mp hstep
    exact .inl hmessage
  | advance i =>
    obtain ⟨running, op, k, hi, hprogram, rfl⟩ := Jobs.advance_step.mp hstep
    have hissues := Jobs.issues_run (Mails emailKey s₀ events) hidle mails_job hr running
      (List.mem_of_getElem? hi)
    rw [hprogram] at hissues hmessage
    rw [advance_call_snd] at hmessage
    obtain hold | hdelivers | haccepts := mails_perform hissues.1 hmessage
    · exact .inl hold
    · exact .inr (.inl ⟨i, running, rfl, hi, hdelivers⟩)
    · exact .inr (.inr ⟨⟨running, hi, haccepts⟩, haccepts.2⟩)
  | lose i failure =>
    obtain ⟨running, op, k, -, -, rfl⟩ := Jobs.lose_step.mp hstep
    exact .inl hmessage

/-! ## Runs -/

/-- A call of the run has delivered the message, which says what it said then, unless the recipient
has written to it since. -/
def Delivered (emailKey : String → String) (s₀ : Backend) (events : List BackendEvent)
    (uid messageId : String) (message : Fields) : Prop :=
  ∃ es₁ i es₂ t running sent, events = es₁ ++ .advance i :: es₂ ∧
    run (step emailKey) s₀ es₁ = some t ∧ t.running[i]? = some running ∧
    Delivers emailKey s₀ es₁ uid messageId sent running.job ∧
    (message = sent ∨ ∃ fs e gs u, events = fs ++ e :: gs ∧ es₁.length < fs.length ∧
      run (step emailKey) s₀ fs = some u ∧ Touches emailKey s₀ fs uid messageId u e)

theorem Delivered.append {rest : List BackendEvent}
    (h : Delivered emailKey s₀ events uid messageId message) :
    Delivered emailKey s₀ (events ++ rest) uid messageId message := by
  obtain ⟨es₁, i, es₂, t, running, sent, rfl, hr, hi, hdelivers, hsent⟩ := h
  refine ⟨es₁, i, es₂ ++ rest, t, running, sent, by simp, hr, hi, hdelivers, hsent.imp_right ?_⟩
  rintro ⟨fs, e, gs, u, heq, hrest⟩
  exact ⟨fs, e, gs ++ rest, u, by simp [heq], hrest⟩

/-- What the recipient has written to since is another message that was delivered. -/
theorem Delivered.touch {e : BackendEvent} {old : Fields}
    (h : Delivered emailKey s₀ events uid messageId old) (hr : run (step emailKey) s₀ events = some t)
    (htouches : Touches emailKey s₀ events uid messageId t e) :
    Delivered emailKey s₀ (events ++ [e]) uid messageId message := by
  obtain ⟨es₁, i, es₂, t, running, sent, rfl, hr₁, hi, hdelivers, -⟩ := h
  exact ⟨es₁, i, es₂ ++ [e], t, running, sent, by simp, hr₁, hi, hdelivers,
    .inr ⟨_, e, [], _, rfl, by simp, hr, htouches⟩⟩

/-- Every message, by the text of its path, that is new in a run has been delivered in it. -/
theorem inbox_delivered (emailKey : String → String) {s₀ s : Backend} {events : List BackendEvent}
    {uid messageId : String} {path : DocPath} {message : Fields} (hidle : s₀.running = [])
    (hstart : s₀.state.Plain) (hplain : EachStep (step emailKey) AddressesPlain s₀ events)
    (hnew : s₀.state.doc (.userInbox uid messageId) = none)
    (hr : run (step emailKey) s₀ events = some s) (hmessage : s.state.doc path = some message)
    (hids : Plain (DocPath.userInbox uid messageId).segments)
    (htext : path.text = (DocPath.userInbox uid messageId).text) :
    Delivered emailKey s₀ events uid messageId message := by
  obtain rfl := eq_path_of_run hstart hplain hr hmessage hids htext
  clear hplain htext
  -- the recipient writes to a message that was there earlier in the run
  induction hlength : events.length using Nat.strong_induction_on generalizing events s message with
  | _ n ih =>
    subst hlength
    obtain rfl | ⟨es, e, rfl⟩ := List.eq_nil_or_concat' events
    · obtain rfl := Option.some.inj hr
      cases hnew.symm.trans hmessage
    · obtain ⟨t, ht, hstep⟩ := Option.bind_eq_some_iff.mp (run_append .. ▸ hr)
      obtain ⟨u, hu, hend⟩ := run_cons_eq_some.mp hstep
      obtain rfl := Option.some.inj hend
      obtain hold | ⟨i, running, rfl, hi, hdelivers⟩ | ⟨htouches, old, v, hvisits, hold⟩ :=
        message_step hidle ht hu hmessage
      · exact (ih es.length (by simp) ht hold rfl).append
      · exact ⟨es, i, [], t, running, message, rfl, ht, hi, hdelivers, .inl rfl⟩
      · obtain ⟨es', ⟨rest, rfl⟩, hv⟩ := hvisits
        exact (ih es'.length (by simp) hv hold rfl).append.touch ht htouches

/-- `bob` lets himself be found, `ann` invites him to her piece, and he marks the invite read. -/
def bobInvited : List BackendEvent :=
  [.environment ⟨"bob", [.set (.usersByEmail "bob@duet.app")
      (Assoc.ofList [("uid", .string "bob"), ("discoverable", .bool true)])]⟩,
    .environment ⟨"ann", [.set (.pieces "piece") (Assoc.ofList [("ownerId", .string "ann"),
      ("participantIds", .array [.string "ann"]), ("collaborators", .array [])])]⟩,
    .start (.request (.sendInvite (some ⟨"ann", none, none⟩)
      [("pieceId", .string "piece"), ("inviteeEmail", .string "bob@duet.app")] "message" 0)),
    .advance 0, .advance 0, .advance 0,
    .environment ⟨"bob", [.update (.userInbox "bob" "message") [("read", .set (.bool true))]]⟩]

theorem inbox_delivered_bobInvited : ∃ s message, run (step id) beforeAnn bobInvited = some s ∧
    s.state.doc (.userInbox "bob" "message") = some message ∧
      message.read "read" = .bool true ∧
        Delivered id beforeAnn bobInvited "bob" "message" message := by
  have hbob : (run (step id) beforeAnn bobInvited).any (fun s =>
      (s.state.doc (.userInbox "bob" "message")).any fun message =>
        message.read "read" = .bool true) = true := by decide +kernel
  obtain ⟨s, hr, hbob⟩ := (Option.any_eq_true _ _).mp hbob
  obtain ⟨message, hmessage, hread⟩ := (Option.any_eq_true _ _).mp hbob
  exact ⟨s, message, hr, hmessage, of_decide_eq_true hread, inbox_delivered id rfl
    Cloud.plain_empty (by decide +kernel) rfl hr hmessage (by decide) rfl⟩

end Backend

end Duet
