import Duet.Cloud.Backend

/-!
# Deleted pieces

When a piece is gone the rules grant nothing under it but the delete of a layer and the tombstone of
a note, and no function writes to a piece that is missing. `onPieceDeleted` then removes what is
left, one document at a time.

## Main definitions

* `Cloud.StaysGone` — under a missing piece nothing comes to exist.
* `Backend.NoNewPiece` — no client creates the piece.

## Main results

* `Backend.stays_empty` — nothing comes to exist under a deleted piece, and nothing is left of it
  once `onPieceDeleted` has run.
-/

namespace Duet

open Lib Program

/-- The path is the piece's, or lies under it. -/
def DocPath.isWithin (pieceId : String) (path : DocPath) : Bool :=
  path == .pieces pieceId || path.isUnder pieceId

namespace Cloud

/-- When the piece is missing, it stays missing, and so does what is missing under it. -/
def StaysGone (pieceId : String) (c c' : Cloud) : Prop :=
  c.doc (.pieces pieceId) = none → ∀ path, path.isWithin pieceId = true →
    c.doc path = none → c'.doc path = none

/-- Nothing is left of the piece. -/
def Emptied (pieceId : String) (c : Cloud) : Prop :=
  ∀ path, path.isWithin pieceId = true → c.doc path = none

variable {pieceId : String} {c c' c'' : Cloud}

theorem isWithin_pieces (pieceId : String) : (DocPath.pieces pieceId).isWithin pieceId = true := by
  simp [DocPath.isWithin]

namespace StaysGone

theorem refl (c : Cloud) : c.StaysGone pieceId c := fun _ _ _ hpath => hpath

theorem piece (h : c.StaysGone pieceId c') (hgone : c.doc (.pieces pieceId) = none) :
    c'.doc (.pieces pieceId) = none :=
  h hgone _ (isWithin_pieces pieceId) hgone

theorem trans (h : c.StaysGone pieceId c') (h' : c'.StaysGone pieceId c'') :
    c.StaysGone pieceId c'' :=
  fun hgone path hwithin hpath => h' (h.piece hgone) path hwithin (h hgone path hwithin hpath)

/-- A write elsewhere. -/
theorem of_not_within {paths : DocPath → Prop} {op : Operation} (h : op.OnlyWrites paths)
    (hpaths : ∀ path, path.isWithin pieceId = true → ¬paths path) :
    c.StaysGone pieceId (op.perform c).2 :=
  fun _ path hwithin hpath => by
    rw [Operation.doc_perform_of_not paths h (hpaths path hwithin), hpath]

theorem delete (path : DocPath) :
    c.StaysGone pieceId (Operation.perform (.commit [.delete path]) c).2 := by
  intro _ path' _ hpath'
  rw [Operation.perform_write]
  simp only [Write.result, Write.path, doc_store, hpath', ite_self]

end StaysGone

end Cloud

/-! ## What the functions issue -/

section

variable {can : (op : Operation) → op.Response → Prop} {ok : Operation → Prop}

/-- `lookupEmail` counts the call and reads an entry. -/
theorem issues_lookupEmail (hget : ∀ path, ok (.get path)) (emailKey : String → String)
    (auth : Option Token) (data : Fields) (now : Int)
    (htake : ∀ uid, ok (.transaction (takeCall uid now))) :
    (lookupEmail emailKey (enforceRateLimit now) auth data).Issues can ok := by
  refine (Issues.orFail _ _).bind fun token => (Issues.orFail _ _).bind fun email => ?_
  exact .perform_bind (htake token.uid) fun _ _ => .perform_bind (hget _) fun _ _ => trivial

/-- `sendNudge` writes to inboxes. -/
theorem issues_sendNudge (hget : ∀ path, ok (.get path)) (auth : Option Token) (data : Fields)
    (messageIds : Nat → String) (now : Int)
    (hcommit : ∀ writes, (∀ write ∈ writes, ∃ uid messageId, write.path = .userInbox uid messageId) →
      ok (.commit writes)) :
    (sendNudge auth data messageIds now).Issues can ok := by
  refine (Issues.orFail _ _).bind fun token => (Issues.orFail _ _).bind fun q => ?_
  refine .perform_bind (hget _) fun _ _ => (Issues.orFail _ _).bind fun piece => ?_
  refine (Issues.orFail _ _).bind fun participantIds => ?_
  split_ifs
  · refine (Issues.orFail _ _).bind fun recipients => ⟨hcommit _ fun write hwrite => ?_,
      fun _ _ => trivial⟩
    obtain ⟨i, hi, rfl⟩ := List.mem_mapIdx.mp hwrite
    exact ⟨_, _, rfl⟩
  · trivial

/-- The triggers of layers and notes bump the activity of the piece, or do nothing. -/
theorem issues_trigger (activity : Activity) (now : DateTime)
    (hbump : ∀ editorUid, (bumpPieceActivity now activity.pieceId editorUid).Issues can ok) :
    (activity.trigger now).Issues can ok := by
  rw [Activity.trigger_eq]
  cases activity.editor? with
  | none => trivial
  | some editorUid => exact hbump editorUid

/-- `onPieceDeleted` lists what is under the piece, and deletes. -/
theorem issues_onPieceDeleted {pieceId : String} (hlist : ok (.list (.descendantsOf pieceId)))
    (hdelete : ∀ path, ok (.commit [.delete path])) (schedule : Schedule) :
    (onPieceDeleted pieceId schedule).Issues can ok := by
  refine .perform_bind hlist fun (descendants : List (DocPath × Fields)) _ => ?_
  refine issues_commitEach_order hdelete schedule fun write hwrite => ?_
  simp only [List.mem_append, List.mem_map, List.mem_singleton] at hwrite
  obtain ⟨descendant, -, rfl⟩ | rfl := hwrite
  · exact ⟨_, rfl⟩
  · exact ⟨_, rfl⟩

end

/-! ## The functions -/

section

variable {pieceId : String}

/-- The operation creates nothing under the missing piece, whatever else is stored. -/
def SparesGone (pieceId : String) (op : Operation) : Prop :=
  ∀ c : Cloud, c.StaysGone pieceId (op.perform c).2

/-- What writes elsewhere alone. -/
theorem sparesGone_of_onlyWrites {paths : DocPath → Prop} {op : Operation} (h : op.OnlyWrites paths)
    (hpaths : ∀ path, path.isWithin pieceId = true → ¬paths path) : SparesGone pieceId op :=
  fun _ => .of_not_within h hpaths

/-- An operation on one piece that does nothing when that piece is missing. -/
theorem sparesGone_of_missing {q : String} {op : Operation}
    (h : op.OnlyWrites fun path => path = .pieces q ∨ path.isUnder q = true)
    (hmissing : ∀ c : Cloud, c.doc (.pieces q) = none → (op.perform c).2 = c) :
    SparesGone pieceId op := by
  by_cases hq : q = pieceId
  · subst hq
    intro c hgone path _ hpath
    rw [hmissing c hgone, hpath]
  · refine sparesGone_of_onlyWrites h fun path hwithin hpath => hq ?_
    cases path <;> simp_all [DocPath.isWithin, DocPath.isUnder]

/-- A batch that updates the piece first fails when the piece is missing. -/
theorem sparesGone_update {q : String} {changes : List (String × Change)} {writes : List Write}
    (h : ∀ write ∈ writes, write.path.isUnder q = true) :
    SparesGone pieceId (.commit (.update (.pieces q) changes :: writes)) := by
  refine @sparesGone_of_missing pieceId q _ (fun write hwrite => ?_) fun c hgone => ?_
  · obtain rfl | hwrite := List.mem_cons.mp hwrite
    · exact .inl rfl
    · exact .inr (h write hwrite)
  · simp only [Operation.perform, Cloud.commit, Write.path, Write.result, hgone]
    rfl

theorem sparesGone_of_callable {op : Operation} (h : CallableOperation op) :
    SparesGone pieceId op := by
  cases op with
  | get path => exact fun c => .refl c
  | list query => exact fun c => .refl c
  | commit writes =>
    obtain ⟨path, rfl⟩ | ⟨q, uid, collaborators, rfl⟩ | ⟨uid, messageId, rfl⟩ |
      ⟨uid, messageId, fields, rfl⟩ := h
    · exact fun c => .delete path
    · exact sparesGone_update nofun
    all_goals
      refine @sparesGone_of_onlyWrites pieceId (· = .userInbox uid messageId) _ ?_ ?_
      · intro write hwrite
        obtain rfl := List.mem_singleton.mp hwrite
        rfl
      · rintro path hwithin rfl
        simp [DocPath.isWithin, DocPath.isUnder] at hwithin
  | transaction body =>
    have hpiece : ∀ q, (Operation.transaction body).OnlyWrites (· = .pieces q) →
        (Operation.transaction body).OnlyWrites fun path =>
          path = .pieces q ∨ path.isUnder q = true :=
      fun q => Transaction.OnlyWrites.mono fun path => .inl
    obtain ⟨uid, name, email, q, rfl⟩ | ⟨uid, q, rfl⟩ := h
    · refine sparesGone_of_missing (hpiece q (onlyWrites_joinPiece uid name email q)) ?_
      intro c hgone
      simp [Operation.perform, joinPiece, Transaction.run, hgone, Cloud.commit, Cloud.settle]
    · refine sparesGone_of_missing (hpiece q (onlyWrites_dropFromPiece uid q)) fun c hgone => ?_
      simp [Operation.perform, dropFromPiece, Transaction.run, hgone, Cloud.commit, Cloud.settle]

theorem onlyWrites_takeCall (uid : String) (now : Int) :
    (Operation.transaction (takeCall uid now)).OnlyWrites (· = .rateLimits uid) := by
  intro data
  dsimp only
  split
  · trivial
  · split_ifs
    · simp [Transaction.OnlyWrites, Write.path]
    · split
      · trivial
      · split_ifs
        · trivial
        · simp [Transaction.OnlyWrites, Write.path]

theorem sparesGone_takeCall (uid : String) (now : Int) :
    SparesGone pieceId (.transaction (takeCall uid now)) := by
  refine sparesGone_of_onlyWrites (onlyWrites_takeCall uid now) ?_
  rintro path hwithin rfl
  simp [DocPath.isWithin, DocPath.isUnder] at hwithin

theorem sparesGone_inboxes {writes : List Write}
    (h : ∀ write ∈ writes, ∃ uid messageId, write.path = .userInbox uid messageId) :
    SparesGone pieceId (.commit writes) := by
  refine @sparesGone_of_onlyWrites pieceId (∃ uid messageId, · = .userInbox uid messageId) _ h ?_
  rintro path hwithin ⟨uid, messageId, rfl⟩
  simp [DocPath.isWithin, DocPath.isUnder] at hwithin

theorem sparesGone_of_sweeps {op : Operation} (h : Sweeps op) : SparesGone pieceId op := by
  cases op with
  | list query => exact fun c => .refl c
  | commit writes =>
    obtain ⟨path, rfl⟩ := h
    exact fun c => .delete path
  | _ => exact h.elim

/-- No function creates anything under a missing piece. -/
theorem issues_job (emailKey : String → String) (job : Job) :
    (job.program emailKey).Issues (fun _ _ => True) (SparesGone pieceId) := by
  cases job with
  | request r =>
    exact ((issues_callable emailKey r).mono fun _ => sparesGone_of_callable).bind fun _ => trivial
  | lookupEmail auth data now =>
    exact (issues_lookupEmail (fun _ c => .refl c) emailKey auth data now
      fun uid => sparesGone_takeCall uid now).bind fun _ => trivial
  | sendNudge auth data messageIds now =>
    exact issues_sendNudge (fun _ c => .refl c) auth data messageIds now fun _ => sparesGone_inboxes
  | activity activity now =>
    refine issues_trigger activity now fun editorUid => ⟨sparesGone_update fun write hwrite => ?_,
      fun _ _ => trivial⟩
    obtain rfl := List.mem_singleton.mp hwrite
    simp [Write.path, DocPath.isUnder]
  | pieceDeleted q schedule =>
    exact issues_onPieceDeleted (fun c => .refl c) (fun path c => .delete path) schedule
  | gcTombstones cutoff =>
    exact ((issues_sweepTombstonesBefore cutoff).mono fun _ => sparesGone_of_sweeps).bind
      fun _ => trivial

end

/-! ## The clients -/

namespace Backend

/-- No client creates the piece. -/
def NoNewPiece (pieceId : String) (s : Backend) : BackendEvent → Prop
  | .environment batch => ∀ write ∈ batch.writes, write.path = .pieces pieceId →
      ∀ fields, write.result (s.state.doc (.pieces pieceId)) ≠ .ok (some fields)
  | _ => True

variable {emailKey : String → String} {pieceId uid : String} {c c' : Cloud}

/-- A permitted write to a document that is missing under the missing piece deletes it. -/
theorem delete_of_permitsWrite {write : Write} (hgone : c.doc (.pieces pieceId) = none)
    (hpermits : c.permitsWrite (some uid) write) (hwithin : write.path.isWithin pieceId = true)
    (hmissing : c.doc write.path = none)
    (hnew : write.path = .pieces pieceId → ∀ fields,
      write.result (c.doc (.pieces pieceId)) ≠ .ok (some fields)) :
    write = .delete write.path := by
  have hnone : ∀ fields, write.result (c.doc write.path) ≠ .ok (some fields) := by
    intro fields hresult
    rw [Cloud.permitsWrite, hresult, hmissing] at hpermits
    cases hpath : write.path with
    | pieces q =>
      obtain rfl : q = pieceId := by
        simpa [hpath, DocPath.isWithin, DocPath.isUnder] using hwithin
      rw [hpath] at hresult
      exact hnew hpath fields hresult
    | layers q layerId =>
      obtain rfl : q = pieceId := by
        simpa [hpath, DocPath.isWithin, DocPath.isUnder] using hwithin
      rw [hpath] at hpermits
      have hrule : (layersRule (some uid) (c.doc (.pieces q)) layerId (.create fields)).Holds :=
        hpermits
      rw [hgone] at hrule
      exact not_holds_isPieceParticipant_none (holds_layersRule_create.mp hrule).2
    | notes q noteId =>
      obtain rfl : q = pieceId := by
        simpa [hpath, DocPath.isWithin, DocPath.isUnder] using hwithin
      rw [hpath] at hpermits
      have hrule : (notesRule (some uid) (c.doc (.notes q noteId)) (c.doc (.pieces q))
          (.create fields)).Holds := hpermits
      rw [hgone] at hrule
      exact not_holds_isPieceParticipant_none (holds_notesRule_create.mp hrule).1
    | reads q readUid =>
      obtain rfl : q = pieceId := by
        simpa [hpath, DocPath.isWithin, DocPath.isUnder] using hwithin
      rw [hpath] at hpermits
      have hrule : (readsRule (some uid) (c.doc (.reads q readUid)) (c.doc (.pieces q)) readUid
          (.create fields)).Holds := hpermits
      rw [hgone, readsRule, Verdict.holds_and] at hrule
      exact not_holds_isPieceParticipant_none hrule.2
    | _ => simp [hpath, DocPath.isWithin, DocPath.isUnder] at hwithin
  cases write with
  | delete path => rfl
  | update path changes =>
    rw [Cloud.permitsWrite, show (Write.update path changes).path = path from rfl] at hpermits
    rw [Write.path] at hmissing
    simp [hmissing, Write.result] at hpermits
  | _ => exact absurd rfl (hnone _)

/-- A batch that only deletes a missing document does not create it. -/
theorem doc_commit_of_deletes {path : DocPath} {writes : List Write}
    (h : ∀ write ∈ writes, write.path = path → write = .delete path) (hmissing : c.doc path = none)
    (hok : c.commit writes = .ok c') : c'.doc path = none := by
  induction writes generalizing c with
  | nil =>
    obtain rfl := Except.ok.inj hok
    exact hmissing
  | cons write writes ih =>
    cases hresult : write.result (c.doc write.path) with
    | error failure =>
      rw [Cloud.commit, hresult] at hok
      cases hok
    | ok fields =>
      rw [Cloud.commit_cons_of_ok hresult] at hok
      refine ih (fun w hw => h w (List.mem_cons_of_mem _ hw)) ?_ hok
      rw [Cloud.doc_store]
      split_ifs with hpath
      · have hdelete := h write List.mem_cons_self hpath.symm
        rw [hdelete] at hresult
        exact (Except.ok.inj hresult).symm
      · exact hmissing

/-- What a client commits creates nothing under the missing piece. -/
theorem staysGone_of_commits {s : Backend} {batch : ClientCommit}
    (hnew : s.NoNewPiece pieceId (.environment batch)) (hok : commits s.state batch = some c') :
    s.state.StaysGone pieceId c' := by
  intro hgone path hwithin hmissing
  rw [commits] at hok
  split_ifs at hok with hpermitted
  cases hcommit : s.state.commit batch.writes with
  | error failure =>
    rw [hcommit] at hok
    cases hok
  | ok cloud =>
    rw [hcommit] at hok
    obtain rfl := Option.some.inj hok
    refine doc_commit_of_deletes (fun write hwrite hpath => ?_) hmissing hcommit
    subst hpath
    exact delete_of_permitsWrite hgone (hpermitted write hwrite) hwithin hmissing
      (hnew write hwrite)

/-! ## The cascade -/

/-- Deleting, one by one, all that is left of a missing piece. -/
theorem secures_commitEach {writes : List Write}
    (hdeletes : ∀ write ∈ writes, ∃ path, write = .delete path)
    (hgone : c.doc (.pieces pieceId) = none)
    (hcovers : ∀ path, path.isWithin pieceId = true → c.doc path ≠ none → .delete path ∈ writes) :
    (commitEach writes).Secures Operation.perform (Cloud.StaysGone pieceId)
      (fun _ c => c.Emptied pieceId) c := by
  induction writes generalizing c with
  | nil =>
    intro c' hrely path hwithin
    refine hrely hgone path hwithin ?_
    by_contra hleft
    cases hcovers path hwithin hleft
  | cons write writes ih =>
    obtain ⟨deleted, rfl⟩ := hdeletes write List.mem_cons_self
    intro c' hrely
    have hspares : c'.StaysGone pieceId (Operation.perform (.commit [.delete deleted]) c').2 :=
      .delete deleted
    refine ⟨hspares, fun _ _ => ih (fun w hw => hdeletes w (List.mem_cons_of_mem _ hw))
      (hspares.piece (hrely.piece hgone)) fun path hwithin hleft => ?_⟩
    have hbefore : c.doc path ≠ none := by
      intro hnone
      exact hleft (hspares (hrely.piece hgone) path hwithin (hrely hgone path hwithin hnone))
    obtain heq | hmem := List.mem_cons.mp (hcovers path hwithin hbefore)
    · obtain rfl := Write.delete.inj heq
      rw [Operation.perform_write] at hleft
      exact absurd (Cloud.doc_store_self _ _ _) hleft
    · exact hmem

/-- `onPieceDeleted` leaves nothing of a piece that is missing when it starts. -/
theorem secures_onPieceDeleted (schedule : Schedule) (hgone : c.doc (.pieces pieceId) = none) :
    (onPieceDeleted pieceId schedule).Secures Operation.perform (Cloud.StaysGone pieceId)
      (fun _ c => c.Emptied pieceId) c := by
  refine .perform_bind fun c' hrely => ⟨.refl c', fun descendants hlist => ?_⟩
  obtain rfl := Except.ok.inj hlist
  refine secures_commitEach (fun write hwrite => ?_) (hrely.piece hgone) fun path hwithin hleft => ?_
  · have hmem := (schedule.perm _).mem_iff.mp hwrite
    simp only [List.mem_append, List.mem_map, List.mem_singleton] at hmem
    obtain ⟨descendant, -, rfl⟩ | rfl := hmem
    · exact ⟨_, rfl⟩
    · exact ⟨_, rfl⟩
  · refine (schedule.perm _).mem_iff.mpr (List.mem_append_left _ ?_)
    obtain ⟨fields, hdoc⟩ := Option.ne_none_iff_exists'.mp hleft
    refine List.mem_map.mpr ⟨(path, fields), Cloud.mem_list.mpr ⟨hdoc, ?_⟩, rfl⟩
    have hne : path ≠ .pieces pieceId := by
      rintro rfl
      exact hleft (hrely.piece hgone)
    cases path <;> simp_all [DocPath.isWithin, DocPath.isUnder, Query.selects]

/-- The job is a run of `onPieceDeleted` for the piece. -/
def isCascade (pieceId : String) : Job → Bool
  | .pieceDeleted pieceId' _ => pieceId' == pieceId
  | _ => false

/-- What a run of `onPieceDeleted` for the piece secures, where the jobs from the `n`-th on have
started since the piece was deleted. -/
def EmptiedBy (pieceId : String) (n : Nat) (i : Nat) (job : Job) (_ : Unit) (c : Cloud) : Prop :=
  n ≤ i → isCascade pieceId job = true → c.Emptied pieceId

variable {s t : Backend} {n : Nat}

/-- No function creates anything under the missing piece. -/
theorem secures_job (job : Job) :
    (job.program emailKey).Secures Operation.perform (Cloud.StaysGone pieceId)
      (fun _ _ => True) c :=
  (issues_job emailKey job).secures fun _ c hspares => hspares c

/-- A job that starts when the piece is missing. -/
theorem secures_start {i : Nat} (job : Job) (hgone : c.doc (.pieces pieceId) = none) :
    (job.program emailKey).Secures Operation.perform (Cloud.StaysGone pieceId)
      (EmptiedBy pieceId n i job) c := by
  cases hjob : isCascade pieceId job with
  | false => exact (secures_job job).mono fun _ _ _ _ hcascade => by simp [hjob] at hcascade
  | true =>
    cases job with
    | pieceDeleted q schedule =>
      obtain rfl : q = pieceId := by simpa [isCascade] using hjob
      exact (secures_onPieceDeleted schedule hgone).mono fun _ _ hempty _ _ => hempty
    | _ => cases hjob

/-- What holds once the piece is missing. -/
structure Gone (pieceId : String) (n : Nat) (s : Backend) : Prop where
  piece : s.state.doc (.pieces pieceId) = none
  jobs : s.Secured Operation.perform (Cloud.StaysGone pieceId) (EmptiedBy pieceId n)

theorem gone_step {event : BackendEvent} (h : Gone pieceId n s) (hnew : s.NoNewPiece pieceId event)
    (hstep : step emailKey s event = some t) :
    s.state.StaysGone pieceId t.state ∧ Gone pieceId n t := by
  obtain ⟨hstays, hjobs⟩ := Jobs.secured_step Cloud.StaysGone.refl (fun _ _ _ => .trans) h.jobs
    (fun batch c hevent hok => staysGone_of_commits (hevent ▸ hnew) hok)
    (fun job _ => secures_start job h.piece) hstep
  exact ⟨hstays, hstays.piece h.piece, hjobs⟩

/-- Under a piece that is missing nothing comes to exist, as long as no client creates the piece
anew; and nothing is left of it once an `onPieceDeleted` that has started since is done. -/
theorem stays_empty (emailKey : String → String) {s₀ : Backend} {es fs : List BackendEvent}
    (hidle : s₀.running = []) (hs : run (step emailKey) s₀ es = some s)
    (hgone : s.state.doc (.pieces pieceId) = none)
    (hnew : EachStep (step emailKey) (NoNewPiece pieceId) s fs)
    (ht : run (step emailKey) s fs = some t) :
    (∀ path, path.isWithin pieceId = true → s.state.doc path = none → t.state.doc path = none) ∧
      ∀ i running, s.running.length ≤ i → t.running[i]? = some running →
        isCascade pieceId running.job = true → running.program = .done () →
          t.state.Emptied pieceId := by
  have hissues := run_invariant'
    (I := fun s => ∀ running ∈ s.running,
      running.program.Issues (fun _ _ => True) (SparesGone pieceId))
    (fun _ _ _ => Jobs.issues_step (fun _ => SparesGone pieceId) (issues_job emailKey))
    (by simp [hidle]) hs
  have hstart : Gone pieceId s.running.length s := by
    refine ⟨hgone, fun i running hi => ?_⟩
    have hbefore : i < s.running.length := (List.getElem?_eq_some_iff.mp hi).1
    have hsecures : running.program.Secures Operation.perform (Cloud.StaysGone pieceId)
        (fun _ _ => True) s.state :=
      (hissues running (List.mem_of_getElem? hi)).secures fun _ c hspares => hspares c
    exact hsecures.mono fun _ _ _ hsince => absurd hsince (Nat.not_le.mpr hbefore)
  obtain ⟨hkept, hend⟩ := run_invariant
    (I := fun u => s.state.StaysGone pieceId u.state ∧ Gone pieceId s.running.length u)
    (fun u e w hu hnew hstep => (gone_step hu.2 hnew hstep).imp_left hu.1.trans)
    ⟨.refl _, hstart⟩ hnew ht
  refine ⟨hkept hgone, fun i running hi hrunning hcascade hdone => ?_⟩
  have hsecured := hend.jobs i running hrunning
  rw [hdone] at hsecured
  exact hsecured t.state (.refl _) hi hcascade

/-! ### A run -/

/-- `ann`'s piece, with `bob`'s layer and a note of his. -/
def bobsSlice : Backend where
  state := ((Cloud.empty.store (.pieces "piece") (some (Assoc.ofList [("ownerId", .string "ann"),
    ("participantIds", .array [.string "ann", .string "bob"])]))).store (.layers "piece" "bob")
      (some [("rev", .int 1)])).store (.notes "piece" "note") (some [("authorId", .string "bob")])
  running := []

/-- `ann` deletes the piece. -/
def annDeletes : List BackendEvent := [.environment ⟨"ann", [.delete (.pieces "piece")]⟩]

/-- `bob` tombstones his note, which he has done offline, and the triggers run; the one that is told
of his write fails. -/
def triggersRun : List BackendEvent :=
  [.environment ⟨"bob", [.update (.notes "piece" "note") [("deletedAt", .set (.timestamp 1))]]⟩,
    .start (.activity (.note "piece" "note" (some [("authorId", .string "bob")])) (.sinceEpoch 1)),
    .start (.pieceDeleted "piece" .inOrder), .advance 1, .advance 1, .advance 0, .advance 1,
    .advance 1]

/-- A program that has ended well. -/
def hasEnded : AdminProgram Unit → Bool
  | .done _ => true
  | _ => false

theorem stays_empty_bobsSlice : ∃ s t running,
    run (step id) bobsSlice annDeletes = some s ∧ run (step id) s triggersRun = some t ∧
      t.running[1]? = some running ∧ isCascade "piece" running.job = true ∧
        running.program = .done () ∧ t.state.Emptied "piece" := by
  have hdeletes : ((run (step id) bobsSlice annDeletes).map fun s =>
      (s.state.doc (.pieces "piece"), s.running.length)) = some (none, 0) := by decide +kernel
  obtain ⟨s, hs, hgone⟩ := Option.map_eq_some_iff.mp hdeletes
  obtain ⟨hgone, hlength⟩ := Prod.mk.inj hgone
  have hruns : ((run (step id) bobsSlice (annDeletes ++ triggersRun)).bind fun t =>
      t.running[1]?.map fun running => (isCascade "piece" running.job,
        hasEnded running.program)) = some (true, true) := by
    decide +kernel
  obtain ⟨t, ht, hrunning⟩ := Option.bind_eq_some_iff.mp hruns
  obtain ⟨running, hrunning, hended⟩ := Option.map_eq_some_iff.mp hrunning
  obtain ⟨hcascade, hdone⟩ := Prod.mk.inj hended
  have hdone : running.program = .done () := by
    cases hprogram : running.program with
    | done _ => rfl
    | _ => simp [hprogram, hasEnded] at hdone
  rw [run_append, hs, Option.bind_some] at ht
  have hnew : EachStep (step id) (NoNewPiece "piece") s triggersRun := by
    refine .of_forall fun e he u => ?_
    obtain rfl | hrest := List.mem_cons.mp he
    · intro write hwrite hpath
      obtain rfl := List.mem_singleton.mp hwrite
      cases hpath
    · have hjob : ∀ batch, e ≠ .environment batch := by
        rintro batch rfl
        simp at hrest
      cases e with
      | environment batch => exact absurd rfl (hjob batch)
      | _ => trivial
  refine ⟨s, t, running, hs, ht, hrunning, hcascade, hdone, ?_⟩
  exact (stays_empty id rfl hs hgone hnew ht).2 1 running (by omega) hrunning hcascade hdone

end Backend

end Duet
