import Duet.Cloud.Addresses
import Duet.Cloud.Cascade
import Duet.Lib.Origin

/-!
# Who has written what

The functions rewrite membership and the time of the last change; of what else there is to see on a
piece they only take away. So every layer is as its author committed it, every note is one that its
author created, up to its tombstone, and the rest of a piece is its owner's.

## Main definitions

* `Operation.AddsNothing` — whatever is seen of a document after the operation was seen before.
* `LeftToClients` — a view of a document that no function changes.

## Main results

* `Backend.ink_by_author`, `Backend.notes_by_author`, `Backend.piece_by_owner` — who brought what a
  run ends with.
-/

namespace Duet

open Lib Program

section

variable {β : Type} {path : DocPath} {view : Fields → β}

/-! ## What an operation adds -/

/-- Whatever the write is applied to, what is seen of its result was seen before. -/
def Write.AddsNothing (view : Fields → β) (write : Write) : Prop :=
  ∀ old fields, write.result old = .ok (some fields) → old.map view = some (view fields)

/-- The transaction adds nothing to what is seen of the document. -/
def Transaction.AddsNothing (path : DocPath) (view : Fields → β) : Transaction → Prop
  | commit writes => ∀ write ∈ writes, write.path = path → write.AddsNothing view
  | abort _ => True
  | get _ k => ∀ fields, (k fields).AddsNothing path view

/-- The operation adds nothing to what is seen of the document. -/
def Operation.AddsNothing (path : DocPath) (view : Fields → β) : Operation → Prop
  | .get _ | .list _ => True
  | .commit writes => ∀ write ∈ writes, write.path = path → write.AddsNothing view
  | .transaction body => body.AddsNothing path view

/-- What a client or a function sees of a document. -/
def Cloud.shows (c : Cloud) (path : DocPath) (view : Fields → β) : Option β := (c.doc path).map view

variable {c c' : Cloud} {b : β}

theorem Write.addsNothing_delete (view : Fields → β) (path : DocPath) :
    (Write.delete path).AddsNothing view := by
  intro old fields hresult
  cases hresult

theorem Write.addsNothing_update {changes : List (String × Change)}
    (h : ∀ fields, view (Write.changed fields changes) = view fields) (path : DocPath) :
    (Write.update path changes).AddsNothing view := by
  intro old fields hresult
  cases old with
  | none => cases hresult
  | some old =>
    obtain rfl := Option.some.inj (Except.ok.inj hresult)
    rw [h]
    rfl

/-- What is seen after a batch was seen before it, or one of the writes may have brought it. -/
theorem Cloud.shows_commit {writes : List Write}
    (h : ∀ write ∈ writes, write.path = path → write.AddsNothing view)
    (hok : c.commit writes = .ok c') (hshown : c'.shows path view = some b) :
    c.shows path view = some b := by
  induction writes generalizing c with
  | nil =>
    obtain rfl := Except.ok.inj hok
    exact hshown
  | cons write writes ih =>
    cases hresult : write.result (c.doc write.path) with
    | error failure =>
      rw [Cloud.commit, hresult] at hok
      cases hok
    | ok fields =>
      rw [Cloud.commit_cons_of_ok hresult] at hok
      have hnext := ih (fun w hw => h w (List.mem_cons_of_mem _ hw)) hok
      rw [Cloud.shows, Cloud.doc_store] at hnext
      split_ifs at hnext with hpath
      · subst hpath
        cases fields with
        | none => cases hnext
        | some fields => exact (h write List.mem_cons_self rfl _ _ hresult).trans hnext
      · exact hnext

theorem Cloud.shows_transaction {body : Transaction} (h : body.AddsNothing path view)
    (hok : body.run c = .ok c') (hshown : c'.shows path view = some b) :
    c.shows path view = some b := by
  induction body with
  | commit writes => exact Cloud.shows_commit h hok hshown
  | abort failure => cases hok
  | get path' k ih => exact ih _ (h _) hok

theorem Cloud.shows_settle {outcome : Except CloudFailure Cloud}
    (h : ∀ c', outcome = .ok c' → c'.shows path view = some b → c.shows path view = some b)
    (hshown : (c.settle outcome).2.shows path view = some b) : c.shows path view = some b := by
  cases outcome with
  | error failure => exact hshown
  | ok c' => exact h c' rfl hshown

theorem Operation.shows_perform {op : Operation} (h : op.AddsNothing path view)
    (hshown : (op.perform c).2.shows path view = some b) : c.shows path view = some b := by
  cases op with
  | get _ => exact hshown
  | list _ => exact hshown
  | commit writes => exact Cloud.shows_settle (fun _ hok => Cloud.shows_commit h hok) hshown
  | transaction body => exact Cloud.shows_settle (fun _ hok => Cloud.shows_transaction h hok) hshown

/-! ## The functions -/

/-- The fields of a piece that the functions rewrite. -/
def rewritten : List String := ["collaborators", "participantIds", "updatedAt"]

/-- A view of a document that no function changes, unless it deletes the document. -/
structure LeftToClients (path : DocPath) (view : Fields → β) : Prop where
  userInbox : ∀ uid messageId, DocPath.userInbox uid messageId ≠ path
  rateLimits : ∀ uid, DocPath.rateLimits uid ≠ path
  reads : ∀ pieceId uid, DocPath.reads pieceId uid ≠ path
  piece : ∀ pieceId, DocPath.pieces pieceId = path → ∀ fields changes,
    (∀ change ∈ changes, change.1 ∈ rewritten) → view (Write.changed fields changes) = view fields

theorem LeftToClients.update (h : LeftToClients path view) {pieceId : String}
    {changes : List (String × Change)} (hchanges : ∀ change ∈ changes, change.1 ∈ rewritten)
    (hpath : (Write.update (.pieces pieceId) changes).path = path) :
    (Write.update (.pieces pieceId) changes).AddsNothing view :=
  Write.addsNothing_update (fun fields => h.piece pieceId hpath fields changes hchanges) _

theorem LeftToClients.joinPiece (h : LeftToClients path view) (uid : String) (name email : Value)
    (pieceId : String) : (Duet.joinPiece uid name email pieceId).AddsNothing path view := by
  intro piece
  cases piece with
  | none => simp [Transaction.AddsNothing]
  | some piece =>
    dsimp only
    split
    · trivial
    · split_ifs
      · simp [Transaction.AddsNothing]
      · split
        · trivial
        · intro write hwrite hpath
          obtain rfl := List.mem_singleton.mp hwrite
          exact h.update (by simp [rewritten]) hpath

theorem LeftToClients.dropFromPiece (h : LeftToClients path view) (uid pieceId : String) :
    (Duet.dropFromPiece uid pieceId).AddsNothing path view := by
  intro piece
  cases piece with
  | none => simp [Transaction.AddsNothing]
  | some piece =>
    dsimp only
    split
    · intro write hwrite hpath
      obtain rfl := List.mem_singleton.mp hwrite
      exact h.update (by simp [rewritten]) hpath
    · trivial

theorem LeftToClients.callable (h : LeftToClients path view) {op : Operation}
    (hop : CallableOperation op) : op.AddsNothing path view := by
  cases op with
  | get path => trivial
  | list query => trivial
  | commit writes =>
    intro write hwrite hpath
    obtain ⟨deleted, rfl⟩ | ⟨q, uid, collaborators, rfl⟩ | ⟨uid, messageId, rfl⟩ |
      ⟨uid, messageId, fields, rfl⟩ := hop <;> obtain rfl := List.mem_singleton.mp hwrite
    · exact Write.addsNothing_delete view deleted
    · exact h.update (by simp [rewritten]) hpath
    · exact absurd hpath (h.userInbox uid messageId)
    · exact absurd hpath (h.userInbox uid messageId)
  | transaction body =>
    obtain ⟨uid, name, email, q, rfl⟩ | ⟨uid, q, rfl⟩ := hop
    · exact h.joinPiece uid name email q
    · exact h.dropFromPiece uid q

theorem LeftToClients.sweeps (_ : LeftToClients path view) {op : Operation} (hop : Sweeps op) :
    op.AddsNothing path view := by
  cases op with
  | list query => trivial
  | commit writes =>
    obtain ⟨deleted, rfl⟩ := hop
    intro write hwrite _
    obtain rfl := List.mem_singleton.mp hwrite
    exact Write.addsNothing_delete view deleted
  | _ => exact hop.elim

/-- What writes elsewhere alone. -/
theorem Operation.addsNothing_of_onlyWrites {paths : DocPath → Prop} {op : Operation}
    (h : op.OnlyWrites paths) (hpath : ¬paths path) : op.AddsNothing path view := by
  have hbody (body : Transaction) (hbody : body.OnlyWrites paths) : body.AddsNothing path view := by
    induction body with
    | commit writes =>
      rintro write hwrite rfl
      exact absurd (hbody write hwrite) hpath
    | abort failure => trivial
    | get path' k ih => exact fun fields => ih fields (hbody fields)
  cases op with
  | get _ => trivial
  | list _ => trivial
  | commit writes =>
    rintro write hwrite rfl
    exact absurd (h write hwrite) hpath
  | transaction body => exact hbody body h

/-- No function adds to what is left to the clients. -/
theorem LeftToClients.job (h : LeftToClients path view) (emailKey : String → String) (job : Job) :
    (job.program emailKey).Issues (fun _ _ => True) (Operation.AddsNothing path view) := by
  have hdelete (deleted : DocPath) : (Operation.commit [.delete deleted]).AddsNothing path view := by
    intro write hwrite _
    obtain rfl := List.mem_singleton.mp hwrite
    exact Write.addsNothing_delete view deleted
  cases job with
  | request r => exact ((issues_callable emailKey r).mono fun _ => h.callable).bind fun _ => trivial
  | lookupEmail auth data now =>
    refine (issues_lookupEmail (fun _ => trivial) emailKey auth data now fun uid => ?_).bind
      fun _ => trivial
    exact Operation.addsNothing_of_onlyWrites (onlyWrites_takeCall uid now) (h.rateLimits uid).symm
  | sendNudge auth data messageIds now =>
    refine issues_sendNudge (fun _ => trivial) auth data messageIds now fun writes hinboxes write
      hwrite hpath => ?_
    obtain ⟨uid, messageId, hinbox⟩ := hinboxes write hwrite
    exact absurd (hinbox.symm.trans hpath) (h.userInbox uid messageId)
  | activity activity now =>
    refine issues_trigger activity now fun editorUid => ⟨fun write hwrite hpath => ?_,
      fun _ _ => trivial⟩
    obtain rfl | hwrite := List.mem_cons.mp hwrite
    · exact h.update (by simp [rewritten]) hpath
    · obtain rfl := List.mem_singleton.mp hwrite
      exact absurd hpath (h.reads _ _)
  | pieceDeleted pieceId schedule => exact issues_onPieceDeleted trivial hdelete schedule
  | gcTombstones cutoff =>
    exact ((issues_sweepTombstonesBefore cutoff).mono fun _ => h.sweeps).bind fun _ => trivial

/-! ## The clients -/

/-- A write that is permitted deletes the document, or leads to one that may be stored. -/
theorem Cloud.permitsWrite_cases {auth : Auth} {write : Write} (h : c.permitsWrite auth write) :
    write = .delete write.path ∨ ∃ fields, write.result (c.doc write.path) = .ok (some fields) ∧
      c.permits auth write.path
        (if (c.doc write.path).isSome then .update fields else .create fields) := by
  cases write with
  | delete path => exact .inl rfl
  | set path fields => exact .inr ⟨_, rfl, h⟩
  | merge path fields => exact .inr ⟨_, rfl, h⟩
  | update path changes =>
    rw [Cloud.permitsWrite] at h
    cases hdoc : c.doc (Write.update path changes).path with
    | none =>
      rw [hdoc] at h
      exact h.elim
    | some old =>
      rw [hdoc] at h
      exact .inr ⟨_, rfl, h⟩

/-- What every write to a document keeps, a batch keeps. -/
theorem Cloud.doc_commit_invariant {P : Option Fields → Prop} {writes : List Write}
    (h : ∀ write ∈ writes, write.path = path → ∀ old new, P old → write.result old = .ok new → P new)
    (hok : c.commit writes = .ok c') (hP : P (c.doc path)) : P (c'.doc path) := by
  induction writes generalizing c with
  | nil =>
    obtain rfl := Except.ok.inj hok
    exact hP
  | cons write writes ih =>
    cases hresult : write.result (c.doc write.path) with
    | error failure =>
      rw [Cloud.commit, hresult] at hok
      cases hok
    | ok fields =>
      rw [Cloud.commit_cons_of_ok hresult] at hok
      refine ih (fun w hw => h w (List.mem_cons_of_mem _ hw)) hok ?_
      rw [Cloud.doc_store]
      split_ifs with hpath
      · exact h write List.mem_cons_self hpath.symm _ _ hP (hpath ▸ hresult)
      · exact hP

/-- The rules take the user for a participant of the piece. -/
def Cloud.Admitted (c : Cloud) (uid pieceId : String) : Prop :=
  (isPieceParticipant (some uid) (c.doc (.pieces pieceId))).Holds

namespace Backend

/-- What is seen after a client's commit was seen before it, or one of its writes was let through to
the document. -/
theorem shows_commits {batch : ClientCommit} (hok : commits c batch = some c')
    (hshown : c'.shows path view = some b) : c.shows path view = some b ∨
      ∃ write ∈ batch.writes, write.path = path ∧ ∃ fields,
        write.result (c.doc path) = .ok (some fields) ∧ c.permits (some batch.uid) path
          (if (c.doc path).isSome then .update fields else .create fields) := by
  obtain ⟨hpermitted, hcommit⟩ := commits_eq_some hok
  by_cases hadds : ∀ write ∈ batch.writes, write.path = path → write.AddsNothing view
  · exact .inl (Cloud.shows_commit hadds hcommit hshown)
  · push Not at hadds
    obtain ⟨write, hwrite, rfl, hadds⟩ := hadds
    obtain hdelete | ⟨fields, hresult, hpermits⟩ := Cloud.permitsWrite_cases (hpermitted write hwrite)
    · rw [hdelete] at hadds
      exact absurd (Write.addsNothing_delete view _) hadds
    · exact .inr ⟨write, hwrite, rfl, fields, hresult, hpermits⟩

end Backend

end

/-! ## Notes -/

/-- What there is to a note besides its tombstone. -/
def noteView (note : Fields) (key : String) : Option Value :=
  if key = "deletedAt" then none else note.get key

theorem noteView_eq_iff {note note' : Fields} :
    noteView note = noteView note' ↔ ∀ key, key ≠ "deletedAt" → note.get key = note'.get key := by
  simp only [funext_iff, noteView]
  refine forall_congr' fun key => ?_
  split_ifs <;> simp_all

/-- A field after some changes depends on the field before them alone. -/
theorem Write.get_changed_congr {old old' : Fields} {key : String} (h : old.get key = old'.get key)
    (changes : List (String × Change)) :
    (Write.changed old changes).get key = (Write.changed old' changes).get key := by
  induction changes generalizing old old' with
  | nil => exact h
  | cons change changes ih =>
    refine ih ?_
    rw [Assoc.get_set, Assoc.get_set]
    split_ifs with hkey
    · subst hkey
      rw [Fields.read, Fields.read, h]
    · exact h

theorem get_merged_congr {old old' : Fields} {key : String} (h : old.get key = old'.get key)
    (fields : Fields) :
    (fields.foldl (fun merged field => merged.set field.1 field.2) old).get key =
      (fields.foldl (fun merged field => merged.set field.1 field.2) old').get key := by
  induction fields generalizing old old' with
  | nil => exact h
  | cons field fields ih =>
    refine ih ?_
    rw [Assoc.get_set, Assoc.get_set, h]

/-- What is merged into a document that lacks the field is merged into any other. -/
theorem get_merged_of_missing {old old' : Fields} {key : String} {value : Value}
    (hmissing : old.get key = none) {fields : Fields}
    (h : (fields.foldl (fun merged field => merged.set field.1 field.2) old).get key = some value) :
    (fields.foldl (fun merged field => merged.set field.1 field.2) old').get key = some value := by
  induction fields generalizing old old' with
  | nil => cases hmissing.symm.trans h
  | cons field fields ih =>
    by_cases hkey : key = field.1
    · rw [← h]
      exact get_merged_congr (by rw [hkey, Assoc.get_set_self, Assoc.get_set_self]) fields
    · exact ih (by rwa [Assoc.get_set_of_ne _ hkey]) h

theorem Write.result_get_congr {write : Write} {old old' fields fields' : Fields} {key : String}
    (h : old.get key = old'.get key) (hresult : write.result (some old) = .ok (some fields))
    (hresult' : write.result (some old') = .ok (some fields')) : fields.get key = fields'.get key := by
  cases write with
  | delete path => cases hresult
  | set path written =>
    obtain rfl := Option.some.inj (Except.ok.inj hresult)
    obtain rfl := Option.some.inj (Except.ok.inj hresult')
    rfl
  | merge path written =>
    obtain rfl := Option.some.inj (Except.ok.inj hresult)
    obtain rfl := Option.some.inj (Except.ok.inj hresult')
    exact get_merged_congr h written
  | update path changes =>
    obtain rfl := Option.some.inj (Except.ok.inj hresult)
    obtain rfl := Option.some.inj (Except.ok.inj hresult')
    exact Write.get_changed_congr h changes

/-- What a write puts into a missing document it puts into any other. -/
theorem Write.get_of_result_none {write : Write} {old : Option Fields} {fields fields' : Fields}
    {key : String} {value : Value} (hnew : write.result none = .ok (some fields))
    (hvalue : fields.get key = some value) (hresult : write.result old = .ok (some fields')) :
    fields'.get key = some value := by
  cases write with
  | set path written =>
    obtain rfl := Option.some.inj (Except.ok.inj hnew)
    obtain rfl := Option.some.inj (Except.ok.inj hresult)
    exact hvalue
  | merge path written =>
    obtain rfl := Option.some.inj (Except.ok.inj hnew)
    obtain rfl := Option.some.inj (Except.ok.inj hresult)
    exact get_merged_of_missing rfl hvalue
  | _ => cases hnew

namespace Backend

variable {emailKey : String → String} {s₀ s t : Backend} {events : List BackendEvent} {c c' : Cloud}
  {pieceId noteId uid : String}

/-- What is seen at the end of a run was seen all along, or since a client's commit that `brings` it. -/
theorem shows_origin {β : Type} {path : DocPath} {view : Fields → β} {b : β}
    {brings : Backend → BackendEvent → Prop} (h : LeftToClients path view)
    (hbrings : ∀ (t : Backend) batch c', commits t.state batch = some c' →
      c'.shows path view = some b → t.state.shows path view = some b ∨ brings t (.environment batch))
    (hidle : s₀.running = []) (hr : run (step emailKey) s₀ events = some s)
    (hshown : s.state.shows path view = some b) :
    Always (step emailKey) (fun t => t.state.shows path view = some b) s₀ events ∨
      Brought (step emailKey) brings (fun t => t.state.shows path view = some b) s₀ events := by
  refine always_or_brought (I := fun t => ∀ running ∈ t.running,
    running.program.Issues (fun _ _ => True) (Operation.AddsNothing path view))
    (fun _ _ _ => Jobs.issues_step (fun _ => Operation.AddsNothing path view) (h.job emailKey))
    (fun t e u ht hstep hshown => ?_) (by simp [hidle]) hr hshown
  cases e with
  | environment batch =>
    obtain ⟨c', hok, rfl⟩ := Jobs.environment_step.mp hstep
    exact hbrings t batch c' hok hshown
  | start job =>
    obtain rfl := Jobs.start_step.mp hstep
    exact .inl hshown
  | advance i =>
    obtain ⟨running, op, k, hi, hprogram, rfl⟩ := Jobs.advance_step.mp hstep
    have hissues := ht running (List.mem_of_getElem? hi)
    rw [hprogram] at hissues hshown
    rw [advance_call_snd] at hshown
    exact .inl (Operation.shows_perform hissues.1 hshown)
  | lose i failure =>
    obtain ⟨running, op, k, -, -, rfl⟩ := Jobs.lose_step.mp hstep
    exact .inl hshown

/-! ### Layers -/

/-- Every layer, by the text of its path, is what its author has committed, as a participant, and has
been since then. -/
theorem ink_by_author (emailKey : String → String) {s₀ s : Backend} {events : List BackendEvent}
    {pieceId uid : String} {path : DocPath} {layer : Fields} (hidle : s₀.running = [])
    (hstart : s₀.state.Plain) (hplain : EachStep (step emailKey) AddressesPlain s₀ events)
    (hr : run (step emailKey) s₀ events = some s) (hlayer : s.state.doc path = some layer)
    (hids : Plain (DocPath.layers pieceId uid).segments)
    (htext : path.text = (DocPath.layers pieceId uid).text) :
    Always (step emailKey) (fun t => t.state.doc (.layers pieceId uid) = some layer) s₀ events ∨
      Brought (step emailKey)
        (fun t e => t.state.Admitted uid pieceId ∧ ∃ writes, e = .environment ⟨uid, writes⟩)
        (fun t => t.state.doc (.layers pieceId uid) = some layer) s₀ events := by
  obtain rfl := eq_path_of_run hstart hplain hr hlayer hids htext
  have hleft : LeftToClients (.layers pieceId uid) (id : Fields → Fields) := by
    constructor <;> simp
  have hshows (t : Backend) : t.state.shows (.layers pieceId uid) id =
      t.state.doc (.layers pieceId uid) := by
    rw [Cloud.shows, Option.map_id, id]
  simp only [← hshows] at hlayer ⊢
  refine shows_origin hleft (fun t batch c' hok hshown => ?_) hidle hr hlayer
  obtain hold | ⟨write, -, -, fields, -, hpermits⟩ := shows_commits hok hshown
  · exact .inl hold
  · have hrule : uid = batch.uid ∧ t.state.Admitted batch.uid pieceId := by
      split_ifs at hpermits
      · have hupdate : (layersRule (some batch.uid) (t.state.doc (.pieces pieceId)) uid
          (.update fields)).Holds := hpermits
        exact holds_layersRule_update.mp hupdate
      · have hcreate : (layersRule (some batch.uid) (t.state.doc (.pieces pieceId)) uid
          (.create fields)).Holds := hpermits
        exact holds_layersRule_create.mp hcreate
    obtain ⟨rfl, hadmitted⟩ := hrule
    exact .inr ⟨hadmitted, batch.writes, rfl⟩

/-- `ann` has no piece yet. -/
def beforeAnn : Backend := ⟨.empty, []⟩

/-- She creates one, draws and leaves a note; then she deletes the note and renames the piece. -/
def annWrites : List BackendEvent :=
  [.environment ⟨"ann", [.set (.pieces "piece") (Assoc.ofList [("title", .string "Sonata"),
      ("ownerId", .string "ann"), ("participantIds", .array [.string "ann"]),
      ("collaborators", .array [])])]⟩,
    .environment ⟨"ann", [.set (.layers "piece" "ann") [("rev", .int 1)],
      .set (.notes "piece" "note") [("authorId", .string "ann")]]⟩,
    .start (.activity (.layer "piece" "ann" (some [("rev", .int 1)])) (.sinceEpoch 1)),
    .environment ⟨"ann", [.update (.notes "piece" "note") [("deletedAt", .set (.timestamp 1))],
      .update (.pieces "piece") [("title", .set (.string "Sonatina"))]]⟩,
    .advance 0]

theorem ink_by_author_annWrites : ∃ s layer, run (step id) beforeAnn annWrites = some s ∧
    s.state.doc (.layers "piece" "ann") = some layer ∧
      Brought (step id)
        (fun t e => t.state.Admitted "ann" "piece" ∧ ∃ writes, e = .environment ⟨"ann", writes⟩)
        (fun t => t.state.doc (.layers "piece" "ann") = some layer) beforeAnn annWrites := by
  have hann : (run (step id) beforeAnn annWrites).any (fun s =>
      (s.state.doc (.layers "piece" "ann")).isSome) = true := by decide +kernel
  obtain ⟨s, hr, hsome⟩ := (Option.any_eq_true _ _).mp hann
  obtain ⟨layer, hlayer⟩ := Option.isSome_iff_exists.mp hsome
  refine ⟨s, layer, hr, hlayer, (ink_by_author id rfl Cloud.plain_empty (by decide +kernel) hr hlayer
    (by decide) rfl).resolve_left fun halways => ?_⟩
  cases halways.head

/-! ### Notes -/

/-- No client deletes a note. -/
theorem not_permits_deleteNote {auth : Auth} : ¬c.permits auth (.notes pieceId noteId) .delete := by
  rintro ⟨⟩

/-- A client changes nothing of a note that is there, besides its tombstone. -/
theorem noteView_of_commits {batch : ClientCommit} {old note : Fields}
    (hok : commits c batch = some c') (hold : c.doc (.notes pieceId noteId) = some old)
    (hnote : c'.doc (.notes pieceId noteId) = some note) : noteView note = noteView old := by
  obtain ⟨hpermitted, hcommit⟩ := commits_eq_some hok
  have hkept := Cloud.doc_commit_invariant
    (P := fun doc => ∃ fields, doc = some fields ∧ noteView fields = noteView old)
    (fun write hwrite hpath before after hbefore hresult => ?_) hcommit ⟨old, hold, rfl⟩
  · obtain ⟨fields, hfields, hview⟩ := hkept
    obtain rfl := Option.some.inj (hnote.symm.trans hfields)
    exact hview
  · obtain ⟨fields, rfl, hview⟩ := hbefore
    have hpermits := hpermitted write hwrite
    obtain hdelete | ⟨judged, hjudged, hpermits⟩ := Cloud.permitsWrite_cases hpermits
    · rw [hdelete, hpath] at hpermits
      exact absurd hpermits not_permits_deleteNote
    · rw [hpath, hold] at hjudged hpermits
      have hrule : (notesRule (some batch.uid) (c.doc (.notes pieceId noteId))
        (c.doc (.pieces pieceId)) (.update judged)).Holds := hpermits
      rw [hold] at hrule
      have hsame : noteView judged = noteView old := noteView_eq_iff.mpr fun key hkey =>
        holds_affectsOnly.mp (holds_notesRule_update.mp hrule).2 _ (by simpa using hkey)
      obtain ⟨changed, hchanged⟩ : ∃ changed, write.result (some fields) = .ok (some changed) := by
        cases write with
        | delete path => cases hjudged
        | _ => exact ⟨_, rfl⟩
      obtain rfl := Except.ok.inj (hresult.symm.trans hchanged)
      refine ⟨changed, rfl, noteView_eq_iff.mpr fun key hkey => ?_⟩
      rw [← noteView_eq_iff.mp hsame key hkey]
      exact Write.result_get_congr (noteView_eq_iff.mp hview key hkey) hchanged hjudged

/-- A note that a client creates names them as its author. -/
theorem authorId_of_commits {batch : ClientCommit} {note : Fields} (hok : commits c batch = some c')
    (hnew : c.doc (.notes pieceId noteId) = none)
    (hnote : c'.doc (.notes pieceId noteId) = some note) :
    note.get "authorId" = some (.string batch.uid) ∧ c.Admitted batch.uid pieceId := by
  obtain ⟨hpermitted, hcommit⟩ := commits_eq_some hok
  have hcreated (write : Write) (hwrite : write ∈ batch.writes)
      (hpath : write.path = .notes pieceId noteId) : ∃ fields,
        write.result none = .ok (some fields) ∧ c.Admitted batch.uid pieceId ∧
          fields.get "authorId" = some (.string batch.uid) := by
    have hpermits := hpermitted write hwrite
    obtain hdelete | ⟨fields, hfields, hpermits⟩ := Cloud.permitsWrite_cases hpermits
    · rw [hdelete, hpath] at hpermits
      exact absurd hpermits not_permits_deleteNote
    · rw [hpath, hnew] at hfields hpermits
      have hrule : (notesRule (some batch.uid) (c.doc (.notes pieceId noteId))
        (c.doc (.pieces pieceId)) (.create fields)).Holds := hpermits
      exact ⟨fields, hfields, holds_notesRule_create.mp hrule⟩
  constructor
  · refine Cloud.doc_commit_invariant
      (P := fun doc => ∀ fields, doc = some fields → fields.get "authorId" = some (.string batch.uid))
      (fun write hwrite hpath before after _ hresult fields hfields => ?_) hcommit
      (fun fields hfields => by cases hnew.symm.trans hfields) note hnote
    subst hfields
    obtain ⟨created, hcreate, -, hauthor⟩ := hcreated write hwrite hpath
    exact Write.get_of_result_none hcreate hauthor hresult
  · have hshown : c'.shows (.notes pieceId noteId) id = some note := by
      rw [Cloud.shows, hnote]
      rfl
    obtain hold | ⟨write, hwrite, hpath, -⟩ := shows_commits hok hshown
    · rw [Cloud.shows, hnew] at hold
      cases hold
    · obtain ⟨-, -, hadmitted, -⟩ := hcreated write hwrite hpath
      exact hadmitted

/-- Every note, by the text of its path, is one that its author has created, as a participant and
where there was none; only its tombstone may have changed since. -/
theorem notes_by_author (emailKey : String → String) {s₀ s : Backend} {events : List BackendEvent}
    {pieceId noteId : String} {path : DocPath} {note : Fields} (hidle : s₀.running = [])
    (hstart : s₀.state.Plain) (hplain : EachStep (step emailKey) AddressesPlain s₀ events)
    (hr : run (step emailKey) s₀ events = some s) (hnote : s.state.doc path = some note)
    (hids : Plain (DocPath.notes pieceId noteId).segments)
    (htext : path.text = (DocPath.notes pieceId noteId).text) :
    Always (step emailKey)
        (fun t => t.state.shows (.notes pieceId noteId) noteView = some (noteView note)) s₀ events ∨
      Brought (step emailKey)
        (fun t e => ∃ author writes, e = .environment ⟨author, writes⟩ ∧
          note.get "authorId" = some (.string author) ∧ t.state.Admitted author pieceId ∧
            t.state.doc (.notes pieceId noteId) = none)
        (fun t => t.state.shows (.notes pieceId noteId) noteView = some (noteView note)) s₀ events := by
  obtain rfl := eq_path_of_run hstart hplain hr hnote hids htext
  have hleft : LeftToClients (.notes pieceId noteId) noteView := by
    constructor <;> simp
  have hshown : s.state.shows (.notes pieceId noteId) noteView = some (noteView note) := by
    rw [Cloud.shows, hnote]
    rfl
  refine shows_origin hleft (fun t batch c' hok hshown => ?_) hidle hr hshown
  obtain ⟨after, hafter, hview⟩ := Option.map_eq_some_iff.mp hshown
  cases hbefore : t.state.doc (.notes pieceId noteId) with
  | some before =>
    left
    rw [Cloud.shows, hbefore, Option.map_some, ← noteView_of_commits hok hbefore hafter, hview]
  | none =>
    obtain ⟨hauthor, hadmitted⟩ := authorId_of_commits hok hbefore hafter
    refine .inr ⟨batch.uid, batch.writes, rfl, ?_, hadmitted, rfl⟩
    rw [← noteView_eq_iff.mp hview "authorId" (by decide), hauthor]

theorem notes_by_author_annWrites : ∃ s note, run (step id) beforeAnn annWrites = some s ∧
    s.state.doc (.notes "piece" "note") = some note ∧
      Brought (step id)
        (fun t e => ∃ author writes, e = .environment ⟨author, writes⟩ ∧
          note.get "authorId" = some (.string author) ∧ t.state.Admitted author "piece" ∧
            t.state.doc (.notes "piece" "note") = none)
        (fun t => t.state.shows (.notes "piece" "note") noteView = some (noteView note))
        beforeAnn annWrites := by
  have hann : (run (step id) beforeAnn annWrites).any (fun s =>
      (s.state.doc (.notes "piece" "note")).isSome) = true := by decide +kernel
  obtain ⟨s, hr, hsome⟩ := (Option.any_eq_true _ _).mp hann
  obtain ⟨note, hnote⟩ := Option.isSome_iff_exists.mp hsome
  refine ⟨s, note, hr, hnote, (notes_by_author id rfl Cloud.plain_empty (by decide +kernel) hr hnote
    (by decide) rfl).resolve_left fun halways => ?_⟩
  cases halways.head

/-! ### Pieces -/

/-- The commit creates the piece as the user's. -/
def Creates (c : Cloud) (pieceId uid : String) (writes : List Write) : Prop :=
  c.doc (.pieces pieceId) = none ∧ ∃ write ∈ writes, write.path = .pieces pieceId ∧ ∃ fields,
    write.result none = .ok (some fields) ∧ fields.get "ownerId" = some (.string uid)

/-- What a piece says, besides its membership and the time of its last change, its owner has
committed, or who created it as theirs. -/
theorem piece_by_owner (emailKey : String → String) {s₀ s : Backend} {events : List BackendEvent}
    {pieceId key : String} {piece : Fields} {value : Value} (hkey : key ∉ rewritten)
    (hidle : s₀.running = []) (hr : run (step emailKey) s₀ events = some s)
    (hpiece : s.state.doc (.pieces pieceId) = some piece) (hvalue : piece.get key = some value) :
    Always (step emailKey)
        (fun t => t.state.shows (.pieces pieceId) (·.get key) = some (some value)) s₀ events ∨
      Brought (step emailKey)
        (fun t e => ∃ owner writes, e = .environment ⟨owner, writes⟩ ∧
          (dataField (t.state.doc (.pieces pieceId)) "ownerId" = some (.string owner) ∨
            Creates t.state pieceId owner writes))
        (fun t => t.state.shows (.pieces pieceId) (·.get key) = some (some value)) s₀ events := by
  have hleft : LeftToClients (.pieces pieceId) (fun fields => fields.get key) := by
    refine ⟨by simp, by simp, by simp, fun _ _ fields changes hchanges => ?_⟩
    induction changes generalizing fields with
    | nil => rfl
    | cons change changes ih =>
      refine (ih _ fun c hc => hchanges c (List.mem_cons_of_mem _ hc)).trans ?_
      refine Assoc.get_set_of_ne _ ?_ _
      rintro rfl
      exact hkey (hchanges change List.mem_cons_self)
  have hshown : s.state.shows (.pieces pieceId) (·.get key) = some (some value) := by
    rw [Cloud.shows, hpiece, Option.map_some, hvalue]
  refine shows_origin hleft (fun t batch c' hok hshown => ?_) hidle hr hshown
  obtain hold | ⟨write, hwrite, hpath, fields, hresult, hpermits⟩ := shows_commits hok hshown
  · exact .inl hold
  · refine .inr ⟨batch.uid, batch.writes, rfl, ?_⟩
    cases hdoc : t.state.doc (.pieces pieceId) with
    | some old =>
      rw [hdoc] at hpermits
      have hrule : (piecesRule (some batch.uid) (t.state.doc (.pieces pieceId))
        (.update fields)).Holds := hpermits
      rw [hdoc] at hrule
      exact .inl (holds_piecesRule_update.mp hrule).1
    | none =>
      rw [hdoc] at hpermits hresult
      have hrule : (piecesRule (some batch.uid) (t.state.doc (.pieces pieceId))
        (.create fields)).Holds := hpermits
      exact .inr ⟨hdoc, write, hwrite, hpath, fields, hresult, (holds_piecesRule_create.mp hrule).1⟩

theorem piece_by_owner_annWrites : ∃ s piece, run (step id) beforeAnn annWrites = some s ∧
    s.state.doc (.pieces "piece") = some piece ∧
      piece.get "title" = some (.string "Sonatina") ∧
      Brought (step id)
        (fun t e => ∃ owner writes, e = .environment ⟨owner, writes⟩ ∧
          (dataField (t.state.doc (.pieces "piece")) "ownerId" = some (.string owner) ∨
            Creates t.state "piece" owner writes))
        (fun t => t.state.shows (.pieces "piece") (·.get "title") = some (some (.string "Sonatina")))
        beforeAnn annWrites := by
  have hann : (run (step id) beforeAnn annWrites).any (fun s =>
      (s.state.doc (.pieces "piece")).any fun piece =>
        piece.get "title" = some (.string "Sonatina")) = true := by decide +kernel
  obtain ⟨s, hr, hann⟩ := (Option.any_eq_true _ _).mp hann
  obtain ⟨piece, hpiece, htitle⟩ := (Option.any_eq_true _ _).mp hann
  have htitle := of_decide_eq_true htitle
  refine ⟨s, piece, hr, hpiece, htitle,
    (piece_by_owner id (by decide) rfl hr hpiece htitle).resolve_left fun halways => ?_⟩
  cases halways.head

end Backend

end Duet
