import Duet.Cloud.Inbox

/-!
# How membership ends

No call drops anybody but its caller from a piece. Whoever takes part in one does so until they leave
it or delete their account, or until the piece goes: with its owner's account, or because its owner
deletes it.

## Main definitions

* `Cloud.Involves` — the user takes part in the piece.
* `Backend.Ends` — the call may end that.

## Main results

* `Backend.membership_ends` — how a membership that a run loses has ended.
-/

namespace Duet

open Lib Program Verdict

/-- The piece is stored, and the user takes part in it. -/
def Cloud.Involves (c : Cloud) (pieceId uid : String) : Prop :=
  ∃ piece, c.doc (.pieces pieceId) = some piece ∧ TakesPart piece uid

/-- The operation leaves the user where they take part. -/
def Operation.KeepsMember (pieceId uid : String) (op : Operation) : Prop :=
  ∀ c : Cloud, c.Involves pieceId uid → (op.perform c).2.Involves pieceId uid

section

variable {pieceId uid : String} {c c' : Cloud} {path : DocPath} {op : Operation}

theorem Cloud.Involves.of_doc (h : c.Involves pieceId uid)
    (hdoc : c'.doc (.pieces pieceId) = c.doc (.pieces pieceId)) : c'.Involves pieceId uid := by
  obtain ⟨piece, hpiece, hpart⟩ := h
  exact ⟨piece, hdoc.trans hpiece, hpart⟩

theorem Operation.keepsMember_get (path : DocPath) : (Operation.get path).KeepsMember pieceId uid :=
  fun _ h => h

theorem Operation.keepsMember_list (query : Query) : (Operation.list query).KeepsMember pieceId uid :=
  fun _ h => h

theorem Operation.keepsMember_of_onlyWrites {paths : DocPath → Prop} (h : op.OnlyWrites paths)
    (hpath : ¬paths (.pieces pieceId)) : op.KeepsMember pieceId uid :=
  fun _ hinvolves => hinvolves.of_doc (Operation.doc_perform_of_not paths h hpath)

theorem Operation.keepsMember_delete (hpath : path ≠ .pieces pieceId) :
    (Operation.commit [.delete path]).KeepsMember pieceId uid := by
  have honly : (Operation.commit [.delete path]).OnlyWrites (· = path) := by
    intro write hwrite
    obtain rfl := List.mem_singleton.mp hwrite
    rfl
  exact Operation.keepsMember_of_onlyWrites honly hpath.symm

/-- Where the write is to the piece, the user takes part in what it leaves. -/
def Write.KeepsMember (pieceId uid : String) (write : Write) : Prop :=
  write.path = .pieces pieceId → ∀ old new, TakesPart old uid → write.result (some old) = .ok new →
    ∃ piece, new = some piece ∧ TakesPart piece uid

theorem Write.KeepsMember.of_ne {write : Write} (h : write.path ≠ .pieces pieceId) :
    write.KeepsMember pieceId uid := fun hpath => absurd hpath h

theorem Write.KeepsMember.update {changes : List (String × Change)}
    (h : ∀ old, TakesPart old uid → TakesPart (Write.changed old changes) uid) (path : DocPath) :
    (Write.update path changes).KeepsMember pieceId uid := by
  intro _ old new hold hresult
  obtain rfl := Except.ok.inj hresult
  exact ⟨_, rfl, h old hold⟩

theorem Cloud.Involves.commit {writes : List Write} (h : c.Involves pieceId uid)
    (hwrites : ∀ write ∈ writes, write.KeepsMember pieceId uid) (hok : c.commit writes = .ok c') :
    c'.Involves pieceId uid := by
  refine Cloud.doc_commit_invariant (P := fun doc => ∃ piece, doc = some piece ∧ TakesPart piece uid)
    (fun write hwrite hpath before after hbefore hresult => ?_) hok h
  obtain ⟨old, rfl, hold⟩ := hbefore
  exact hwrites write hwrite hpath old after hold hresult

theorem Cloud.Involves.settle {outcome : Except CloudFailure Cloud} (h : c.Involves pieceId uid)
    (hok : ∀ c', outcome = .ok c' → c'.Involves pieceId uid) :
    (c.settle outcome).2.Involves pieceId uid := by
  cases outcome with
  | error failure => exact h
  | ok c' => exact hok c' rfl

theorem Operation.keepsMember_commit {writes : List Write}
    (h : ∀ write ∈ writes, write.KeepsMember pieceId uid) :
    (Operation.commit writes).KeepsMember pieceId uid :=
  fun _ hinvolves => hinvolves.settle fun _ hok => hinvolves.commit h hok

/-! ## What the functions do to members -/

theorem takesPart_changed_arrayRemove {piece : Fields} {caller : String} (collaborators : Value)
    (hcaller : uid ≠ caller) (h : TakesPart piece uid) :
    TakesPart (Write.changed piece [("collaborators", .set collaborators),
      ("participantIds", .arrayRemove (.string caller))]) uid := by
  have hread : Fields.read (Write.changed piece [("collaborators", .set collaborators),
      ("participantIds", .arrayRemove (.string caller))]) "participantIds" =
        Change.apply (.arrayRemove (.string caller)) (piece.read "participantIds") := by
    simp [Write.changed, Fields.read_set]
  rw [TakesPart] at h ⊢
  rw [hread]
  cases hvalue : piece.read "participantIds" <;>
    simp_all [arrayContains, Change.apply]

theorem takesPart_changed_set {piece : Fields} {items : List Value} {collaborators : Value}
    (h : .string uid ∈ items) :
    TakesPart (Write.changed piece [("participantIds", .set (.array items)),
      ("collaborators", .set collaborators)]) uid := by
  have hread : Fields.read (Write.changed piece [("participantIds", .set (.array items)),
      ("collaborators", .set collaborators)]) "participantIds" = .array items := by
    simp [Write.changed, Fields.read_set, Change.apply]
  simpa [TakesPart, hread, arrayContains] using h

theorem keepsMember_joinPiece (caller : String) (name email : Value) (q : String) :
    (Operation.transaction (joinPiece caller name email q)).KeepsMember pieceId uid := by
  intro c hinvolves
  by_cases hpath : q = pieceId
  · subst hpath
    refine hinvolves.settle fun c' hok => ?_
    obtain ⟨piece, hpiece, hpart⟩ := hinvolves
    simp only [joinPiece, Transaction.run, hpiece] at hok
    split at hok
    · cases hok
    · rename_i items hitems
      have hmember := (takesPart_iff_mem hitems).mp hpart
      split_ifs at hok
      · exact .commit ⟨piece, hpiece, hpart⟩ (by simp) hok
      · split at hok
        · cases hok
        · refine .commit ⟨piece, hpiece, hpart⟩ (fun write hwrite => ?_) hok
          obtain rfl := List.mem_singleton.mp hwrite
          exact .update (fun old _ => takesPart_changed_set (List.mem_append_left _ hmember)) _
  · exact Operation.keepsMember_of_onlyWrites (onlyWrites_joinPiece caller name email q)
      (by simpa [eq_comm] using hpath) c hinvolves

theorem keepsMember_dropFromPiece {caller : String} (hcaller : uid ≠ caller) (q : String) :
    (Operation.transaction (dropFromPiece caller q)).KeepsMember pieceId uid := by
  intro c hinvolves
  by_cases hpath : q = pieceId
  · subst hpath
    refine hinvolves.settle fun c' hok => ?_
    obtain ⟨piece, hpiece, hpart⟩ := hinvolves
    simp only [dropFromPiece, Transaction.run, hpiece] at hok
    split at hok
    · rename_i items collaborators hitems hcollaborators
      have hmember := (takesPart_iff_mem hitems).mp hpart
      refine .commit ⟨piece, hpiece, hpart⟩ (fun write hwrite => ?_) hok
      obtain rfl := List.mem_singleton.mp hwrite
      refine .update (fun old _ => takesPart_changed_set ?_) _
      simpa [hcaller] using hmember
    · cases hok
  · exact Operation.keepsMember_of_onlyWrites (onlyWrites_dropFromPiece caller q)
      (by simpa [eq_comm] using hpath) c hinvolves

end

namespace Backend

/-! ## The calls -/

section

variable (emailKey : String → String) (s₀ : Backend) (events : List BackendEvent)

/-- The user leaves the piece, or deletes their account. -/
def LeavesPiece (pieceId uid : String) (job : Job) : Prop := ∃ token : Token, token.uid = uid ∧
  ((∃ data, job = .request (.leavePiece (some token) data) ∧
      data.read "pieceId" = .string pieceId) ∨
    ∃ schedule, job = .request (.deleteAccount (some token) true schedule))

/-- The owner of the piece deletes their account. -/
def Closes (piece : Fields) (job : Job) : Prop := ∃ (token : Token) (schedule : Schedule),
  job = .request (.deleteAccount (some token) true schedule) ∧
    piece.read "ownerId" = .string token.uid

/-- The call ends the user's membership, or the piece, going by the piece as it was in the run. -/
def Ends (pieceId uid : String) (job : Job) : Prop :=
  (∃ piece, Stored emailKey s₀ events (.pieces pieceId) piece ∧
    (piece.read "ownerId" ≠ .string uid ∧ LeavesPiece pieceId uid job ∨ Closes piece job)) ∨
  ∃ schedule, job = .pieceDeleted pieceId schedule

/-- The operation leaves the user where they take part, unless the call ends that. -/
def Departs (pieceId uid : String) (job : Job) (op : Operation) : Prop :=
  op.KeepsMember pieceId uid ∨ Ends emailKey s₀ events pieceId uid job

end

variable {emailKey : String → String} {s₀ s t : Backend} {events : List BackendEvent} {job : Job}
  {pieceId uid : String} {c c' : Cloud} {can : (op : Operation) → op.Response → Prop}
  {ok : Operation → Prop}

theorem departs_delete {path : DocPath} (hpath : path ≠ .pieces pieceId) :
    Departs emailKey s₀ events pieceId uid job (.commit [.delete path]) :=
  .inl (Operation.keepsMember_delete hpath)

theorem departs_inbox {recipientUid messageId : String} {write : Write}
    (hpath : write.path = .userInbox recipientUid messageId) :
    Departs emailKey s₀ events pieceId uid job (.commit [write]) := by
  refine .inl (Operation.keepsMember_commit fun write' hwrite => .of_ne ?_)
  obtain rfl := List.mem_singleton.mp hwrite
  simp [hpath]

/-- A bulk writer issues its writes one by one, in any order. -/
theorem issues_bulk (schedule : Schedule) {writes : List Write}
    (h : ∀ write ∈ writes, ok (.commit [write])) :
    (commitEach (schedule.order writes)).Issues can ok := by
  have heach (writes : List Write) (h : ∀ write ∈ writes, ok (.commit [write])) :
      (commitEach writes).Issues can ok := by
    induction writes with
    | nil => trivial
    | cons write writes ih =>
      exact ⟨h write List.mem_cons_self, fun _ _ => ih fun w hw => h w (List.mem_cons_of_mem _ hw)⟩
  exact heach _ fun write hwrite => h write ((schedule.perm writes).mem_iff.mp hwrite)

/-- A document that a job has listed was stored. -/
theorem stored_of_listed {query : Query} {results : List (DocPath × Fields)}
    (h : Jobs.Answered (Job.program emailKey) Operation.perform commits s₀ events (.list query) results)
    {result : DocPath × Fields} (hresult : result ∈ results) :
    Stored emailKey s₀ events result.1 result.2 ∧ query.selects result.1 result.2 = true := by
  obtain ⟨t, hvisits, hlist⟩ := h
  obtain rfl := Except.ok.inj hlist
  obtain ⟨hdoc, hselects⟩ := Cloud.mem_list.mp hresult
  exact ⟨⟨t, hvisits, hdoc⟩, hselects⟩

/-- What a job has listed and deletes is not the piece, where the query cannot select the piece. -/
theorem departs_delete_listed {query : Query} {results : List (DocPath × Fields)}
    (h : Jobs.Answered (Job.program emailKey) Operation.perform commits s₀ events (.list query) results)
    (hquery : ∀ fields, query.selects (.pieces pieceId) fields = false)
    {result : DocPath × Fields} (hresult : result ∈ results) :
    Departs emailKey s₀ events pieceId uid job (.commit [.delete result.1]) := by
  refine departs_delete fun hpath => ?_
  have hselects := (stored_of_listed h hresult).2
  rw [hpath, hquery] at hselects
  cases hselects

theorem departs_leavePiece (auth : Option Token) (data : Fields) :
    (leavePiece auth data).Issues
      (Jobs.Answered (Job.program emailKey) Operation.perform commits s₀ events)
      (Departs emailKey s₀ events pieceId uid (.request (.leavePiece auth data))) := by
  refine Issues.orFail_bind fun token htoken => Issues.orFail_bind fun q hq =>
    .perform_bind (.inl (Operation.keepsMember_get _)) fun (doc : Option Fields) hdoc => ?_
  cases doc with
  | none => trivial
  | some piece =>
    rw [leaveRead]
    split_ifs with howner
    · trivial
    refine (Issues.orFail _ _).bind fun collaborators => ⟨?_, fun _ _ =>
      ⟨departs_delete (by simp), fun _ _ => trivial⟩⟩
    by_cases hcaller : uid = token.uid
    · by_cases hpath : q = pieceId
      · subst hpath hcaller htoken
        exact .inr (.inl ⟨piece, stored_of_answered hdoc rfl, .inl ⟨howner, token, rfl,
          .inl ⟨data, rfl, nonEmptyString_eq_some hq⟩⟩⟩)
      · refine .inl (Operation.keepsMember_commit fun write hwrite => .of_ne ?_)
        obtain rfl := List.mem_singleton.mp hwrite
        simpa [Write.path] using hpath
    · refine .inl (Operation.keepsMember_commit fun write hwrite => ?_)
      obtain rfl := List.mem_singleton.mp hwrite
      exact .update (fun old hold => takesPart_changed_arrayRemove _ hcaller hold) _

theorem departs_leavePieces {token : Token} (schedule : Schedule) {pieces : List (DocPath × Fields)}
    (hpieces : ∀ piece ∈ pieces, Stored emailKey s₀ events piece.1 piece.2 ∧
      (∃ q, piece.1 = .pieces q) ∧ piece.2.read "ownerId" ≠ .string token.uid) :
    (leavePieces token.uid schedule pieces).Issues
      (Jobs.Answered (Job.program emailKey) Operation.perform commits s₀ events)
      (Departs emailKey s₀ events pieceId uid
        (.request (.deleteAccount (some token) true schedule))) := by
  induction pieces with
  | nil => trivial
  | cons piece pieces ih =>
    obtain ⟨hstored, ⟨q, hq⟩, howner⟩ := hpieces piece List.mem_cons_self
    refine .perform_bind (.inl (Operation.keepsMember_list _))
      fun (notes : List (DocPath × Fields)) hnotes => ?_
    refine (issues_bulk schedule fun write hwrite => ?_).bind fun _ =>
      ⟨?_, fun _ _ => ih fun piece' hpiece' => hpieces piece' (List.mem_cons_of_mem _ hpiece')⟩
    · simp only [List.mem_cons, List.mem_map] at hwrite
      obtain rfl | ⟨note, hnote, rfl⟩ := hwrite
      · exact departs_delete (by simp)
      · exact departs_delete_listed hnotes (fun _ => by simp [Query.selects]) hnote
    · by_cases hcaller : uid = token.uid
      · by_cases hpath : q = pieceId
        · subst hpath hcaller
          exact .inr (.inl ⟨piece.2, hq ▸ hstored, .inl ⟨howner, token, rfl, .inr ⟨schedule, rfl⟩⟩⟩)
        · refine .inl (Operation.keepsMember_of_onlyWrites (onlyWrites_dropFromPiece _ _) ?_)
          simpa [hq, pieceIdOf, eq_comm] using hpath
      · exact .inl (keepsMember_dropFromPiece hcaller _)

theorem departs_deleteAccount (auth : Option Token) (recent : Bool) (schedule : Schedule) :
    (deleteAccount auth recent schedule).Issues
      (Jobs.Answered (Job.program emailKey) Operation.perform commits s₀ events)
      (Departs emailKey s₀ events pieceId uid
        (.request (.deleteAccount auth recent schedule))) := by
  refine Issues.orFail_bind fun token htoken => ?_
  subst htoken
  cases recent with
  | false => trivial
  | true =>
    refine .perform_bind (.inl (Operation.keepsMember_list _))
      fun (directory : List (DocPath × Fields)) hdirectory =>
        .perform_bind (.inl (Operation.keepsMember_get _)) fun (deviceToken : Option Fields) _ => ?_
    refine (issues_bulk schedule fun write hwrite => ?_).bind fun _ => ?_
    · simp only [List.mem_append, List.mem_map, List.mem_singleton] at hwrite
      obtain ⟨entry, hentry, rfl⟩ | rfl := hwrite
      · exact departs_delete_listed hdirectory (fun _ => by simp [Query.selects]) hentry
      · exact departs_delete (by simp)
    refine .perform_bind (.inl (Operation.keepsMember_list _)) fun (counted : List (DocPath × Fields)) _ =>
      .perform_bind (.inl (Operation.keepsMember_list _))
        fun (inbox : List (DocPath × Fields)) hinbox => ?_
    refine (issues_bulk schedule fun write hwrite => ?_).bind fun _ => ?_
    · obtain ⟨message, hmessage, rfl⟩ := List.mem_map.mp hwrite
      exact departs_delete_listed hinbox (fun _ => by simp [Query.selects]) hmessage
    refine .perform_bind (.inl (Operation.keepsMember_list _))
      fun (myPieces : List (DocPath × Fields)) hpieces => ?_
    refine Issues.bind ?_ fun _ => trivial
    refine (issues_bulk schedule fun write hwrite => ?_).bind fun _ => departs_leavePieces schedule ?_
    · obtain ⟨piece, hpiece, rfl⟩ := List.mem_map.mp hwrite
      obtain ⟨hmine, howner⟩ := List.mem_filter.mp hpiece
      by_cases hpath : piece.1 = .pieces pieceId
      · refine .inr (.inl ⟨piece.2, hpath ▸ (stored_of_listed hpieces hmine).1, .inr ⟨token, schedule,
          rfl, of_decide_eq_true howner⟩⟩)
      · exact departs_delete hpath
    · intro piece hpiece
      obtain ⟨hmine, howner⟩ := List.mem_filter.mp hpiece
      obtain ⟨hstored, hselects⟩ := stored_of_listed hpieces hmine
      refine ⟨hstored, ?_, of_decide_eq_true howner⟩
      cases hpath : piece.1 with
      | pieces q => exact ⟨q, rfl⟩
      | _ => simp [hpath, Query.selects] at hselects

theorem departs_onPieceDeleted (q : String) (schedule : Schedule) :
    (onPieceDeleted q schedule).Issues
      (Jobs.Answered (Job.program emailKey) Operation.perform commits s₀ events)
      (Departs emailKey s₀ events pieceId uid (.pieceDeleted q schedule)) := by
  refine .perform_bind (.inl (Operation.keepsMember_list _))
    fun (descendants : List (DocPath × Fields)) hdescendants => ?_
  refine issues_bulk schedule fun write hwrite => ?_
  simp only [List.mem_append, List.mem_map, List.mem_singleton] at hwrite
  obtain ⟨descendant, hdescendant, rfl⟩ | rfl := hwrite
  · exact departs_delete_listed hdescendants (fun _ => by simp [Query.selects]) hdescendant
  · by_cases hpath : q = pieceId
    · subst hpath
      exact .inr (.inr ⟨schedule, rfl⟩)
    · exact departs_delete (by simpa using hpath)

/-- A sweep deletes what it has listed: tombstones, never pieces. -/
theorem departs_sweepNotes {notes : List (DocPath × Fields)}
    (h : ∀ note ∈ notes, Departs emailKey s₀ events pieceId uid job (.commit [.delete note.1])) :
    (sweepNotes notes).Issues
      (Jobs.Answered (Job.program emailKey) Operation.perform commits s₀ events)
      (Departs emailKey s₀ events pieceId uid job) := by
  induction notes with
  | nil => trivial
  | cons note rest ih =>
    have hrest := ih fun note' hnote' => h note' (List.mem_cons_of_mem _ hnote')
    rw [sweepNotes]
    split
    · exact .perform_bind (h note List.mem_cons_self) fun _ _ => hrest.bind fun _ => trivial
    · exact hrest

theorem departs_job (job : Job) :
    (job.program emailKey).Issues
      (Jobs.Answered (Job.program emailKey) Operation.perform commits s₀ events)
      (Departs emailKey s₀ events pieceId uid job) := by
  have hget (path : DocPath) : Departs emailKey s₀ events pieceId uid job (.get path) :=
    .inl (Operation.keepsMember_get path)
  have hlist (query : Query) : Departs emailKey s₀ events pieceId uid job (.list query) :=
    .inl (Operation.keepsMember_list query)
  cases job with
  | request r =>
    refine Issues.bind ?_ fun _ => trivial
    cases r with
    | sendInvite auth data messageId now =>
      exact issues_sendInvite hget emailKey auth data messageId now fun _ _ => departs_inbox rfl
    | acceptInvite auth data =>
      exact issues_acceptInvite hget auth data
        (fun caller name email q => .inl (keepsMember_joinPiece caller name email q))
        fun _ _ => departs_inbox rfl
    | leavePiece auth data => exact departs_leavePiece auth data
    | deleteAccount auth recent schedule => exact departs_deleteAccount auth recent schedule
  | lookupEmail auth data now =>
    refine (issues_lookupEmail hget emailKey auth data now fun caller => .inl ?_).bind fun _ => trivial
    exact Operation.keepsMember_of_onlyWrites (onlyWrites_takeCall caller now) (by simp)
  | sendNudge auth data messageIds now =>
    refine issues_sendNudge hget auth data messageIds now fun writes hinboxes =>
      .inl (Operation.keepsMember_commit fun write hwrite => .of_ne ?_)
    obtain ⟨recipient, messageId, hinbox⟩ := hinboxes write hwrite
    simp [hinbox]
  | activity activity now =>
    refine issues_trigger activity now fun editorUid =>
      ⟨.inl (Operation.keepsMember_commit fun write hwrite => ?_), fun _ _ => trivial⟩
    obtain rfl | hwrite := List.mem_cons.mp hwrite
    · refine .update (fun old hold => ?_) _
      simpa [TakesPart, Write.changed, Fields.read_set] using hold
    · obtain rfl := List.mem_singleton.mp hwrite
      exact .of_ne (by simp [Write.path])
  | pieceDeleted q schedule => exact departs_onPieceDeleted q schedule
  | gcTombstones cutoff =>
    refine Issues.bind ?_ fun _ => trivial
    refine .perform_bind (hlist _) fun (notes : List (DocPath × Fields)) hnotes => ?_
    exact departs_sweepNotes fun note hnote =>
      departs_delete_listed hnotes (fun _ => by simp [Query.selects]) hnote

/-! ## The clients -/

/-- A client's batch leaves the user where they take part, unless the owner deletes the piece. -/
theorem involves_of_commits {batch : ClientCommit} (h : c.Involves pieceId uid)
    (hok : commits c batch = some c')
    (hkeeps : .delete (.pieces pieceId) ∈ batch.writes →
      dataField (c.doc (.pieces pieceId)) "ownerId" ≠ some (.string batch.uid)) :
    c'.Involves pieceId uid := by
  obtain ⟨hpermitted, hcommit⟩ := commits_eq_some hok
  obtain ⟨piece, hpiece, hpart⟩ := h
  have hkept := Cloud.doc_commit_invariant
    (P := fun doc => ∃ fields, doc = some fields ∧
      fields.get "participantIds" = piece.get "participantIds")
    (fun write hwrite hpath before after hbefore hresult => ?_) hcommit ⟨piece, hpiece, rfl⟩
  · obtain ⟨fields, hfields, hsame⟩ := hkept
    refine ⟨fields, hfields, ?_⟩
    rwa [TakesPart, Fields.read, hsame]
  · obtain ⟨fields, rfl, hsame⟩ := hbefore
    have hpermits := hpermitted write hwrite
    obtain hdelete | ⟨judged, hjudged, hpermits⟩ := Cloud.permitsWrite_cases hpermits
    · rw [hpath] at hdelete
      rw [hdelete] at hwrite hpermits
      have howner : (isOwner (some batch.uid) (c.doc (.pieces pieceId))).Holds := hpermits
      exact absurd (holds_isOwner.mp howner) (hkeeps hwrite)
    · rw [hpath, hpiece] at hjudged hpermits
      have hrule : (piecesRule (some batch.uid) (c.doc (.pieces pieceId)) (.update judged)).Holds :=
        hpermits
      rw [hpiece] at hrule
      obtain ⟨-, -, ⟨members, hjudgedMembers, hmembers⟩, -⟩ := holds_piecesRule_update.mp hrule
      obtain ⟨changed, hchanged⟩ : ∃ changed, write.result (some fields) = .ok (some changed) := by
        cases write with
        | delete path => cases hjudged
        | _ => exact ⟨_, rfl⟩
      obtain rfl := Except.ok.inj (hresult.symm.trans hchanged)
      refine ⟨changed, rfl, (Write.result_get_congr hsame hchanged hjudged).trans ?_⟩
      exact hjudgedMembers.trans hmembers.symm

/-! ## Runs -/

/-- The step ends the user's membership, or the piece. -/
def EndsMembership (emailKey : String → String) (s₀ : Backend) (events : List BackendEvent)
    (pieceId uid : String) (t : Backend) : BackendEvent → Prop
  | .environment batch => .delete (.pieces pieceId) ∈ batch.writes ∧
    dataField (t.state.doc (.pieces pieceId)) "ownerId" = some (.string batch.uid)
  | .advance i => ∃ running, t.running[i]? = some running ∧
    Ends emailKey s₀ events pieceId uid running.job
  | _ => False

/-- Nobody who takes part in a piece ceases to, unless they leave it, delete their account, or the
piece goes. -/
theorem membership_ends (emailKey : String → String) {s₀ s : Backend} {events : List BackendEvent}
    {pieceId uid : String} (hidle : s₀.running = [])
    (hr : run (step emailKey) s₀ events = some s) (hinvolved : s₀.state.Involves pieceId uid)
    (hgone : ¬s.state.Involves pieceId uid) :
    ∃ es₁ e es₂ t, events = es₁ ++ e :: es₂ ∧ run (step emailKey) s₀ es₁ = some t ∧
      t.state.Involves pieceId uid ∧ EndsMembership emailKey s₀ es₁ pieceId uid t e := by
  obtain ⟨es₁, e, es₂, t, u, rfl, ht, hstep, hbefore, hafter⟩ :=
    exists_shows_first (fun t : Backend => ¬t.state.Involves pieceId uid)
      (not_not.mpr hinvolved) hr hgone
  have hbefore := not_not.mp hbefore
  refine ⟨es₁, e, es₂, t, rfl, ht, hbefore, ?_⟩
  cases e with
  | environment batch =>
    obtain ⟨c', hok, rfl⟩ := Jobs.environment_step.mp hstep
    by_contra hkeeps
    exact hafter (involves_of_commits hbefore hok fun hdelete howner => hkeeps ⟨hdelete, howner⟩)
  | start job =>
    obtain rfl := Jobs.start_step.mp hstep
    exact absurd hbefore hafter
  | advance i =>
    obtain ⟨running, op, k, hi, hprogram, rfl⟩ := Jobs.advance_step.mp hstep
    have hissues := Jobs.issues_run (Departs emailKey s₀ es₁ pieceId uid) hidle departs_job ht running
      (List.mem_of_getElem? hi)
    rw [hprogram] at hissues hafter
    rw [advance_call_snd] at hafter
    obtain hkeeps | hends := hissues.1
    · exact absurd (hkeeps t.state hbefore) hafter
    · exact ⟨running, hi, hends⟩
  | lose i failure =>
    obtain ⟨running, op, k, -, -, rfl⟩ := Jobs.lose_step.mp hstep
    exact absurd hbefore hafter

/-- `bob` leaves the piece. -/
def bobLeaves : List BackendEvent :=
  [.start (.request (.leavePiece (some ⟨"bob", none, none⟩) [("pieceId", .string "piece")])),
    .advance 0, .advance 0, .advance 0]

theorem membership_ends_bobLeaves : ∃ s, run (step id) bobsSlice bobLeaves = some s ∧
    ¬s.state.Involves "piece" "bob" ∧
      ∃ es₁ e es₂ t, bobLeaves = es₁ ++ e :: es₂ ∧ run (step id) bobsSlice es₁ = some t ∧
        t.state.Involves "piece" "bob" ∧ EndsMembership id bobsSlice es₁ "piece" "bob" t e := by
  have hbob : (run (step id) bobsSlice bobLeaves).any (fun s =>
      (s.state.doc (.pieces "piece")).all fun piece => ¬TakesPart piece "bob") = true := by
    decide +kernel
  obtain ⟨s, hr, hbob⟩ := (Option.any_eq_true _ _).mp hbob
  have hgone : ¬s.state.Involves "piece" "bob" := by
    rintro ⟨piece, hpiece, hpart⟩
    rw [hpiece] at hbob
    exact of_decide_eq_true hbob hpart
  have hstart : (bobsSlice.state.doc (.pieces "piece")).any (fun piece =>
      TakesPart piece "bob") = true := by decide +kernel
  obtain ⟨piece, hpiece, hpart⟩ := (Option.any_eq_true _ _).mp hstart
  exact ⟨s, hr, hgone, membership_ends id rfl hr ⟨piece, hpiece, of_decide_eq_true hpart⟩ hgone⟩

end Backend

end Duet
