import Duet.Cloud.Authorship
import Duet.Cloud.Storage

/-!
# The recordings of live notes

Participants write notes and recordings under the rules, while others leave the piece or delete
their accounts and tombstones are swept, interleaved one operation at a time.

`storage.rules` lets every participant write every recording of the piece, and the functions delete
the recording that a removed note names, whoever uploaded it.

## Main definitions

* `RecordingJob`, `Recordings.step` — the functions that run, and one event.
* `RecordingOperation.learn` — the documents that a function has been told of.
* `Recordings.Kept` — the recording of a live note is what its author uploaded.
* `Recordings.Spares` — an upload, a commit or a function leaves the recording of a live note alone.

## Main results

* `obeyed_recordingJob` — a function deletes only recordings of notes that it has been told of, and
  only of those that it removes.
* `Recordings.kept_of_spares` — recordings are kept in every run whose steps spare them.
-/

namespace Duet

open Lib Program

/-- A run of one of the functions that remove notes or participants. -/
inductive RecordingJob where
  | leavePiece (auth : Option Token) (data : Fields)
  | deleteAccount (auth : Option Token) (recent : Bool) (schedule : Schedule)
    (reached : DocPath → Bool)
  | gcTombstones (cutoff : Int) (reached : DocPath → Bool)

namespace RecordingJob

variable (asText : Value → String)

def program : RecordingJob → RecordingProgram Unit
  | leavePiece auth data => onDocuments (Duet.leavePiece auth data) >>= fun _ => done ()
  | deleteAccount auth recent schedule reached =>
    Storage.deleteAccount reached auth recent schedule >>= fun _ => done ()
  | gcTombstones cutoff reached =>
    Storage.sweepTombstonesBefore asText reached cutoff >>= fun _ => done ()

end RecordingJob

/-- The documents and recordings, and the functions that have been started. -/
abbrev RecordingJobs := Jobs RecordingJob RecordingOperation (Extended.Response Operation.Response)
  CloudFailure Unit Recordings

abbrev RecordingEvent := JobEvent RecordingWrite RecordingJob CloudFailure

/-- The note was tombstoned by the cutoff. -/
def Fields.tombstonedUntil (cutoff : Int) (note : Fields) : Bool :=
  match note.read "deletedAt" with
  | .timestamp deletedAt => deletedAt ≤ cutoff
  | _ => false

/-- A live note of the author refers to the recording. -/
def Cloud.hasLiveNote (cloud : Cloud) (author : String) (path : AudioObject) : Bool :=
  (cloud.list (.notesBy path.pieceId author)).any fun note =>
    note.2.read "audioAssetId" == .string path.assetId && !isAudioNoteTombstoned note.2

namespace Recordings

def step (asText : Value → String) : RecordingJobs → RecordingEvent → Option RecordingJobs :=
  Jobs.step (RecordingJob.program asText) RecordingOperation.perform commits

/-- The recording is what the author uploaded, if they did. -/
def Holds (author : String) (path : AudioObject) (s : Recordings) : Prop :=
  ∀ bytes, s.uploads author path = some bytes → s.objects path = some bytes

/-- The recording of a live note is what its author uploaded. -/
def Kept (author : String) (path : AudioObject) (s : Recordings) : Prop :=
  s.cloud.hasLiveNote author path = true → s.Holds author path

end Recordings

/-- The documents that a function has listed last, without those that it has deleted since. -/
def RecordingOperation.learn (op : RecordingOperation) (s : Recordings)
    (told : List (DocPath × Fields)) : List (DocPath × Fields) :=
  match op with
  | .base (.list query) => s.cloud.list query
  | .base (.commit writes) => told.filter fun entry => decide (.delete entry.1 ∉ writes)
  | _ => told

/-- The note is one that the function removes, and its recording, which the function reaches, is at
`path`. -/
def RecordingJob.removes (asText : Value → String) (path : AudioObject) :
    RecordingJob → DocPath × Fields → Bool
  | deleteAccount auth _ _ reached, (.notes pieceId noteId, note) =>
    reached (.notes pieceId noteId) && pieceId == path.pieceId &&
      auth.any (fun token => note.read "authorId" == .string token.uid) &&
        note.read "audioAssetId" == .string path.assetId
  | gcTombstones cutoff reached, (.notes pieceId noteId, note) =>
    reached (.notes pieceId noteId) && pieceId == path.pieceId &&
      Fields.tombstonedUntil cutoff note && isTruthy (note.read "audioAssetId") &&
        asText (note.read "audioAssetId") == path.assetId
  | _, _ => false

namespace Recordings

/-- What the functions have been told of, beside what is stored. -/
abbrev Told := Nat → List (DocPath × Fields)

/-- A step leaves the recording of a live note of the author alone. Nobody else uploads something
different, and no function goes on that has been told of a note that names the recording and that it
removes. The author brings a note to life only while the recording is what they uploaded. -/
def Spares (asText : Value → String) (author : String) (path : AudioObject)
    (s : RecordingJobs × Told) : RecordingEvent → Prop
  | .environment (.documents batch) => batch.uid = author →
      s.1.state.cloud.hasLiveNote author path = false →
        (∃ cloud ∈ (s.1.state.cloud.commit batch.writes).toOption,
          cloud.hasLiveNote author path = true) → s.1.state.Holds author path
  | .environment (.object uid path' resource) => path' = path → uid ≠ author →
      s.1.state.cloud.hasLiveNote author path = true →
        ∀ bytes ∈ s.1.state.uploads author path, resource = some bytes
  | .advance i => (s.1.state.uploads author path).isSome →
      s.1.state.cloud.hasLiveNote author path = true →
        ∀ running ∈ s.1.running[i]?, ∀ note ∈ s.2 i,
          running.job.removes asText path note = false
  | _ => True

instance (author : String) (path : AudioObject) (s : Recordings) : Decidable (s.Holds author path) :=
  inferInstanceAs (Decidable (∀ bytes ∈ s.uploads author path, s.objects path = some bytes))

instance (asText : Value → String) (author : String) (path : AudioObject)
    (s : RecordingJobs × Told) : (e : RecordingEvent) → Decidable (Spares asText author path s e)
  | .environment (.documents batch) => inferInstanceAs (Decidable (batch.uid = author →
      s.1.state.cloud.hasLiveNote author path = false →
        (∃ cloud ∈ (s.1.state.cloud.commit batch.writes).toOption,
          cloud.hasLiveNote author path = true) → s.1.state.Holds author path))
  | .environment (.object uid path' resource) => inferInstanceAs (Decidable (path' = path →
      uid ≠ author → s.1.state.cloud.hasLiveNote author path = true →
        ∀ bytes ∈ s.1.state.uploads author path, resource = some bytes))
  | .advance i => inferInstanceAs (Decidable ((s.1.state.uploads author path).isSome →
      s.1.state.cloud.hasLiveNote author path = true →
        ∀ running ∈ s.1.running[i]?, ∀ note ∈ s.2 i,
          running.job.removes asText path note = false))
  | .start _ | .lose _ _ => inferInstanceAs (Decidable True)

end Recordings

/-! ## What the functions do to the notes -/

/-- Whatever is stored, a note is left as it is or removed. -/
def SparesNotes (op : Operation) : Prop :=
  ∀ (cloud : Cloud) (pieceId noteId : String),
    (op.perform cloud).2.doc (.notes pieceId noteId) = cloud.doc (.notes pieceId noteId) ∨
      (op.perform cloud).2.doc (.notes pieceId noteId) = none

theorem sparesNotes_of_onlyWrites {paths : DocPath → Prop} {op : Operation}
    (h : op.OnlyWrites paths) (hpaths : ∀ pieceId noteId, ¬paths (.notes pieceId noteId)) :
    SparesNotes op :=
  fun _ pieceId noteId => .inl (Operation.doc_perform_of_not paths h (hpaths pieceId noteId))

theorem sparesNotes_delete (path : DocPath) : SparesNotes (.commit [.delete path]) := by
  intro cloud pieceId noteId
  rw [Operation.perform_write]
  simp only [Write.result, Write.path, Cloud.doc_store]
  split_ifs
  · exact .inr rfl
  · exact .inl rfl

theorem sparesNotes_of_callable {op : Operation} (h : CallableOperation op) : SparesNotes op := by
  cases op with
  | get path => exact fun _ _ _ => .inl rfl
  | list query => exact fun _ _ _ => .inl rfl
  | commit writes =>
    obtain ⟨path, rfl⟩ | ⟨q, uid, collaborators, rfl⟩ | ⟨uid, messageId, rfl⟩ |
      ⟨uid, messageId, fields, rfl⟩ := h
    · exact sparesNotes_delete path
    all_goals
      refine @sparesNotes_of_onlyWrites (fun path => ∀ p n, path ≠ .notes p n) _ ?_
        fun p n h => h p n rfl
      intro write hwrite
      obtain rfl := List.mem_singleton.mp hwrite
      simp [Write.path]
  | transaction body =>
    obtain ⟨uid, name, email, q, rfl⟩ | ⟨uid, q, rfl⟩ := h
    · exact sparesNotes_of_onlyWrites (onlyWrites_joinPiece uid name email q) fun _ _ h => by cases h
    · exact sparesNotes_of_onlyWrites (onlyWrites_dropFromPiece uid q) fun _ _ h => by cases h

theorem sparesNotes_of_sweeps {op : Operation} (h : Sweeps op) : SparesNotes op := by
  cases op with
  | list query => exact fun _ _ _ => .inl rfl
  | commit writes =>
    obtain ⟨path, rfl⟩ := h
    exact sparesNotes_delete path
  | _ => exact h.elim

/-- What a function does to the documents brings no note to life. -/
def RecordingOperation.SparesNotes : RecordingOperation → Prop
  | .base op => Duet.SparesNotes op
  | .side _ => True

theorem issues_recordingJob (asText : Value → String) (job : RecordingJob) :
    (job.program asText).Issues (fun _ _ => True) RecordingOperation.SparesNotes := by
  refine issues_of_forget (fun op hop => hop) (fun _ => trivial) ?_
  have hdone : ∀ _ : Reply, (done () : AdminProgram Unit).Issues (fun _ _ => True) SparesNotes :=
    fun _ => trivial
  cases job with
  | leavePiece auth data =>
    rw [RecordingJob.program, forget_bind, forget_embed]
    exact ((issues_callable id (.leavePiece auth data)).mono
      fun _ => sparesNotes_of_callable).bind hdone
  | deleteAccount auth recent schedule reached =>
    rw [RecordingJob.program, forget_bind, Storage.forget_deleteAccount]
    exact ((issues_callable id (.deleteAccount auth recent schedule)).mono
      fun _ => sparesNotes_of_callable).bind hdone
  | gcTombstones cutoff reached =>
    rw [RecordingJob.program, forget_bind, Storage.forget_sweepTombstonesBefore]
    exact ((issues_sweepTombstonesBefore cutoff).mono fun _ => sparesNotes_of_sweeps).bind
      fun _ => trivial

/-! ## What the functions delete -/

/-- The function deletes a recording only for a note that it has been told of and removes. -/
def RecordingJob.MayDelete (asText : Value → String) (job : RecordingJob) (op : RecordingOperation)
    (told : List (DocPath × Fields)) : Prop :=
  ∀ path, op = .side path → ∃ note ∈ told, job.removes asText path note = true

/-- A program of the function obeys that. -/
abbrev RecordingJob.Obeyed (asText : Value → String) (job : RecordingJob) {α : Type}
    (p : RecordingProgram α) (told : List (DocPath × Fields)) : Prop :=
  p.Obeys (Learns RecordingOperation.perform RecordingOperation.learn) (job.MayDelete asText)
    (fun _ _ => True) told

section

variable {asText : Value → String} {job : RecordingJob} {α β : Type}
  {told : List (DocPath × Fields)}

theorem mayDelete_base (op : Operation) : job.MayDelete asText (.base op) told := by
  rintro path ⟨⟩

/-- What is done with the results of a query. -/
theorem obeyed_listDocs_bind {query : Query} {f : List (DocPath × Fields) → RecordingProgram β}
    (h : ∀ cloud : Cloud, job.Obeyed asText (f (cloud.list query)) (cloud.list query)) :
    job.Obeyed asText (onDocuments (listDocs query) >>= f) told := by
  refine ⟨mayDelete_base _, ?_⟩
  rintro response told' ⟨s, hresponse, rfl⟩
  obtain rfl := Except.ok.inj hresponse
  exact h s.cloud

/-- A recording is deleted for a note that is known and removed, and as much is known after it. -/
theorem obeyed_deleteRecording_bind {reached : DocPath → Bool} {path : DocPath}
    {assetId : Option String} {f : Unit → RecordingProgram β}
    (h : ∀ pieceId noteId asset, path = .notes pieceId noteId → assetId = some asset →
      reached path = true → ∃ note ∈ told, job.removes asText ⟨pieceId, asset⟩ note = true)
    (hf : job.Obeyed asText (f ()) told) :
    job.Obeyed asText (Storage.deleteRecording reached path assetId >>= f) told := by
  unfold Storage.deleteRecording
  split
  · split_ifs with hreached
    · refine ⟨?_, ?_⟩
      · rintro object ⟨⟩
        exact h _ _ _ rfl rfl hreached
      · rintro response told' ⟨s, -, rfl⟩
        exact hf
    · exact hf
  · exact hf

/-- A deleted document is known no more. -/
theorem obeyed_delete_bind {path : DocPath} {f : Unit → RecordingProgram β}
    (h : job.Obeyed asText (f ()) (told.filter fun entry => decide (entry.1 ≠ path))) :
    job.Obeyed asText (onDocuments (commit [.delete path]) >>= f) told := by
  refine ⟨mayDelete_base _, ?_⟩
  rintro ⟨⟩ told' ⟨s, -, rfl⟩
  have hlearn : RecordingOperation.learn (.base (.commit [.delete path])) s told =
      told.filter fun entry => decide (entry.1 ≠ path) := by simp [RecordingOperation.learn]
  rw [hlearn]
  exact h

/-- The recording that a sweep deletes is that of the note. -/
theorem removes_gcTombstones {cutoff : Int} {reached : DocPath → Bool} {note : DocPath × Fields}
    (hselects : (Query.deletedUntil cutoff).selects note.1 note.2 = true) {micros : Int}
    (hdeleted : note.2.read "deletedAt" = .timestamp micros) {pieceId noteId asset : String}
    (hpath : note.1 = .notes pieceId noteId) (hasset : Storage.sweptAsset asText note.2 = some asset)
    (hreached : reached note.1 = true) :
    (RecordingJob.gcTombstones cutoff reached).removes asText ⟨pieceId, asset⟩ note = true := by
  obtain ⟨path, note⟩ := note
  obtain rfl : path = .notes pieceId noteId := hpath
  have hcutoff : Fields.tombstonedUntil cutoff note = true := by
    obtain hget : note.get "deletedAt" = some (.timestamp micros) := by
      cases hget : note.get "deletedAt" with
      | none => simp [Fields.read, hget] at hdeleted
      | some value => simpa [Fields.read, hget] using hdeleted
    simpa [Query.selects, hget, Fields.tombstonedUntil, hdeleted] using hselects
  rw [Storage.sweptAsset] at hasset
  split_ifs at hasset with htruthy
  obtain rfl := Option.some.inj hasset
  simp [RecordingJob.removes, hreached, hcutoff, htruthy]

/-- A sweep goes through notes that it has been told of and not yet deleted. -/
theorem obeyed_sweepNotes {cutoff : Int} {reached : DocPath → Bool}
    {notes : List (DocPath × Fields)}
    (hselects : ∀ note ∈ notes, (Query.deletedUntil cutoff).selects note.1 note.2 = true)
    (hnodup : (notes.map Prod.fst).Nodup) (htold : ∀ note ∈ notes, note ∈ told) :
    (RecordingJob.gcTombstones cutoff reached).Obeyed asText
      (Storage.sweepNotes asText reached notes) told := by
  induction notes generalizing told with
  | nil => trivial
  | cons note rest ih =>
    obtain ⟨hnew, hnodup⟩ := List.nodup_cons.mp hnodup
    have hrest : ∀ n ∈ rest, n ∈ told := fun n hn => htold n (List.mem_cons_of_mem _ hn)
    have ih {told' : List (DocPath × Fields)} (htold' : ∀ n ∈ rest, n ∈ told') :=
      ih (fun n hn => hselects n (List.mem_cons_of_mem _ hn)) hnodup htold'
    rw [Storage.sweepNotes]
    split
    · next micros hdeleted =>
      refine obeyed_deleteRecording_bind (fun pieceId noteId asset hpath hasset hreached => ?_)
        (obeyed_delete_bind (.bind ((ih fun n hn => ?_).mono fun outcome _ _ => ?_)))
      · exact ⟨note, htold note List.mem_cons_self, removes_gcTombstones
          (hselects note List.mem_cons_self) hdeleted hpath hasset hreached⟩
      · refine List.mem_filter.mpr ⟨hrest n hn, decide_eq_true fun hpath => hnew ?_⟩
        exact hpath ▸ List.mem_map_of_mem hn
      · cases outcome <;> trivial
    · exact ih hrest

/-- The recordings of the caller's notes, which are known while they are deleted. -/
theorem obeyed_deleteRecordings_bind {token : Token} {recent : Bool} {schedule : Schedule}
    {reached : DocPath → Bool} {pieceId : String} {notes : List (DocPath × Fields)}
    {f : Unit → RecordingProgram β}
    (hselects : ∀ note ∈ notes, (Query.notesBy pieceId token.uid).selects note.1 note.2 = true)
    (htold : ∀ note ∈ notes, note ∈ told)
    (hf : (RecordingJob.deleteAccount (some token) recent schedule reached).Obeyed asText (f ())
      told) :
    (RecordingJob.deleteAccount (some token) recent schedule reached).Obeyed asText
      (Storage.deleteRecordings reached notes >>= f) told := by
  induction notes with
  | nil => exact hf
  | cons note rest ih =>
    rw [Storage.deleteRecordings, bind_assoc]
    refine obeyed_deleteRecording_bind (fun pieceId' noteId asset hpath hasset hreached => ?_)
      (ih (fun n hn => hselects n (List.mem_cons_of_mem _ hn))
        fun n hn => htold n (List.mem_cons_of_mem _ hn))
    refine ⟨note, htold note List.mem_cons_self, ?_⟩
    have hnote := hselects note List.mem_cons_self
    obtain ⟨path, note⟩ := note
    obtain rfl : path = .notes pieceId' noteId := hpath
    obtain ⟨rfl, hauthor⟩ : pieceId' = pieceId ∧ note.read "authorId" = .string token.uid := by
      simpa [Query.selects] using hnote
    have hstring : note.read "audioAssetId" = .string asset := by
      cases hvalue : note.read "audioAssetId" <;> simp [hvalue, Value.asString] at hasset ⊢
      exact hasset
    simp [RecordingJob.removes, hreached, hauthor, hstring]

/-- The pieces that the caller leaves, one after another; of each the caller's notes are listed. -/
theorem obeyed_leavePieces (token : Token) (recent : Bool) (schedule : Schedule)
    (reached : DocPath → Bool) (pieces : List (DocPath × Fields)) :
    (RecordingJob.deleteAccount (some token) recent schedule reached).Obeyed asText
      (Storage.leavePieces reached token.uid schedule pieces) told := by
  induction pieces generalizing told with
  | nil => trivial
  | cons piece rest ih =>
    refine obeyed_listDocs_bind fun cloud => ?_
    refine obeyed_deleteRecordings_bind (fun note hnote => (Cloud.mem_list.mp hnote).2)
      (fun note hnote => hnote) ?_
    exact .embed_bind (fun _ _ => mayDelete_base _) fun _ _ =>
      .embed_bind (fun _ _ => mayDelete_base _) fun _ _ => ih

theorem obeyed_deleteAccount (auth : Option Token) (recent : Bool) (schedule : Schedule)
    (reached : DocPath → Bool) :
    (RecordingJob.deleteAccount auth recent schedule reached).Obeyed asText
      (Storage.deleteAccount reached auth recent schedule) told := by
  cases auth with
  | none => trivial
  | some token =>
    rw [Storage.deleteAccount, orFail_some, done_bind]
    split_ifs
    · trivial
    refine .embed_bind (fun _ _ => mayDelete_base _) fun _ _ =>
      .embed_bind (fun _ _ => mayDelete_base _) fun _ _ =>
      .embed_bind (fun _ _ => mayDelete_base _) fun _ _ =>
      .embed_bind (fun _ _ => mayDelete_base _) fun _ _ =>
      .embed_bind (fun _ _ => mayDelete_base _) fun _ _ =>
      .embed_bind (fun _ _ => mayDelete_base _) fun _ _ =>
      .embed_bind (fun _ _ => mayDelete_base _) fun _ _ => ?_
    rw [Storage.purgePieces, bind_assoc]
    refine .embed_bind (fun _ _ => mayDelete_base _) fun _ told => .bind ?_
    exact (obeyed_leavePieces token recent schedule reached _).mono fun outcome _ _ => by
      cases outcome <;> trivial

theorem obeyed_sweepTombstonesBefore (cutoff : Int) (reached : DocPath → Bool) :
    (RecordingJob.gcTombstones cutoff reached).Obeyed asText
      (Storage.sweepTombstonesBefore asText reached cutoff) told := by
  refine obeyed_listDocs_bind fun cloud => ?_
  exact obeyed_sweepNotes (fun note hnote => (Cloud.mem_list.mp hnote).2)
    (cloud.nodup.sublist (List.filter_sublist.map _)) fun note hnote => hnote

/-- The functions delete recordings only of notes that they have been told of and remove. -/
theorem obeyed_recordingJob (asText : Value → String) (job : RecordingJob)
    (told : List (DocPath × Fields)) : job.Obeyed asText (job.program asText) told := by
  cases job with
  | leavePiece auth data =>
    exact .embed_bind (fun _ _ => mayDelete_base _) fun _ _ => trivial
  | deleteAccount auth recent schedule reached =>
    refine .bind ((obeyed_deleteAccount auth recent schedule reached).mono fun outcome _ _ => ?_)
    cases outcome <;> trivial
  | gcTombstones cutoff reached =>
    refine .bind ((obeyed_sweepTombstonesBefore cutoff reached).mono fun outcome _ _ => ?_)
    cases outcome <;> trivial

end

/-! ## Keeping recordings -/

namespace Recordings

variable {asText : Value → String} {author : String} {path : AudioObject}

theorem hasLiveNote_iff {cloud : Cloud} : cloud.hasLiveNote author path = true ↔
    ∃ noteId note, cloud.doc (.notes path.pieceId noteId) = some note ∧
      note.read "authorId" = .string author ∧ note.read "audioAssetId" = .string path.assetId ∧
        isAudioNoteTombstoned note = false := by
  rw [Cloud.hasLiveNote, List.any_eq_true]
  constructor
  · rintro ⟨⟨path', note⟩, hnote, hlive⟩
    obtain ⟨hdoc, hselects⟩ := Cloud.mem_list.mp hnote
    cases path' with
    | notes pieceId noteId =>
      obtain ⟨rfl, hauthor⟩ : pieceId = path.pieceId ∧ note.read "authorId" = .string author := by
        simpa [Query.selects] using hselects
      obtain ⟨hasset, hdeleted⟩ : note.read "audioAssetId" = .string path.assetId ∧
          isAudioNoteTombstoned note = false := by simpa using hlive
      exact ⟨noteId, note, hdoc, hauthor, hasset, hdeleted⟩
    | _ => simp [Query.selects] at hselects
  · rintro ⟨noteId, note, hdoc, hauthor, hasset, hdeleted⟩
    refine ⟨(.notes path.pieceId noteId, note), Cloud.mem_list.mpr ⟨hdoc, ?_⟩, ?_⟩
    · simp [Query.selects, hauthor]
    · simp [hasset, hdeleted]

/-- What leaves notes as they are or removes them brings none to life. -/
theorem hasLiveNote_of_sparesNotes {op : Operation} {cloud : Cloud} (hop : SparesNotes op)
    (h : (op.perform cloud).2.hasLiveNote author path = true) :
    cloud.hasLiveNote author path = true := by
  obtain ⟨noteId, note, hdoc, hlive⟩ := hasLiveNote_iff.mp h
  obtain hsame | hgone := hop cloud path.pieceId noteId
  · exact hasLiveNote_iff.mpr ⟨noteId, note, hsame ▸ hdoc, hlive⟩
  · rw [hgone] at hdoc
    cases hdoc

/-- What somebody else commits brings none of the author's notes to life. -/
theorem hasLiveNote_of_commits {cloud cloud' : Cloud} {batch : ClientCommit}
    (hother : batch.uid ≠ author) (hok : Backend.commits cloud batch = some cloud')
    (h : cloud'.hasLiveNote author path = true) : cloud.hasLiveNote author path = true := by
  obtain ⟨noteId, note, hdoc, hauthor, hasset, hlive⟩ := hasLiveNote_iff.mp h
  cases hold : cloud.doc (.notes path.pieceId noteId) with
  | none =>
    obtain ⟨hcreated, -⟩ := Backend.authorId_of_commits hok hold hdoc
    rw [Fields.read, hcreated] at hauthor
    exact absurd (Value.string.inj hauthor) hother
  | some old =>
    have hview := Backend.noteView_of_commits hok hold hdoc
    have hshown : cloud'.shows (.notes path.pieceId noteId) id = some note := by
      rw [Cloud.shows, hdoc]
      rfl
    obtain hsame | ⟨write, -, -, fields, -, hpermits⟩ := Backend.shows_commits hok hshown
    · rw [Cloud.shows, hold] at hsame
      obtain rfl := Option.some.inj hsame
      exact hasLiveNote_iff.mpr ⟨noteId, old, hold, hauthor, hasset, hlive⟩
    · rw [hold] at hpermits
      have hrule : (notesRule (some batch.uid) (cloud.doc (.notes path.pieceId noteId))
        (cloud.doc (.pieces path.pieceId)) (.update fields)).Holds := hpermits
      rw [hold] at hrule
      have hbatch : old.get "authorId" = some (.string batch.uid) :=
        (holds_notesRule_update.mp hrule).1
      rw [Fields.read, noteView_eq_iff.mp hview "authorId" (by decide), hbatch] at hauthor
      exact absurd (Value.string.inj hauthor) hother

/-- Where nothing changes for the author but the documents, the recording is kept unless a note
comes to life. -/
theorem kept_documents {s : Recordings} {cloud : Cloud} (h : s.Kept author path)
    (hnew : cloud.hasLiveNote author path = true → s.cloud.hasLiveNote author path = true ∨
      s.Holds author path) : Kept author path { s with cloud := cloud } := by
  intro hlive
  obtain hbefore | hholds := hnew hlive
  · exact h hbefore
  · exact hholds

/-- Nobody can delete a recording under the rules. -/
theorem not_holds_audioRule_delete {auth : Auth} {piece : Option Fields} :
    ¬(audioRule auth piece none).Holds := by
  simp [audioRule]

/-- A permitted write to a recording leaves it to its author alone, or as the author uploaded it. -/
theorem kept_write {s : Recordings} {uid : String} {path' : AudioObject} {resource : Option Bytes}
    (h : s.Kept author path)
    (hpermits : (audioRule (some uid) (s.cloud.doc (.pieces path'.pieceId)) resource).Holds)
    (hsame : path' = path → uid ≠ author → s.cloud.hasLiveNote author path = true →
      ∀ bytes ∈ s.uploads author path, resource = some bytes) :
    (s.write uid path' resource).Kept author path := by
  obtain ⟨bytes, rfl⟩ : ∃ bytes, resource = some bytes := by
    cases resource with
    | none => exact absurd hpermits not_holds_audioRule_delete
    | some bytes => exact ⟨bytes, rfl⟩
  intro hlive own hown
  by_cases hpath : path' = path
  · subst hpath
    have hobject : (s.write uid path' (some bytes)).objects path' = some bytes :=
      Function.update_self _ _ _
    rw [hobject]
    by_cases huid : uid = author
    · subst huid
      simpa [write, store] using hown
    · have hupload : (s.write uid path' (some bytes)).uploads author path' =
          s.uploads author path' := by simp [write, Function.update_of_ne (Ne.symm huid)]
      exact hsame rfl huid hlive own (hupload ▸ hown)
  · have hobject : (s.write uid path' (some bytes)).objects path = s.objects path :=
      Function.update_of_ne (Ne.symm hpath) _ _
    have hupload : (s.write uid path' (some bytes)).uploads author path = s.uploads author path := by
      by_cases huid : uid = author
      · subst huid
        simp [write, Function.update_of_ne (Ne.symm hpath)]
      · simp [write, Function.update_of_ne (Ne.symm huid)]
    rw [hobject]
    exact h hlive own (hupload ▸ hown)

/-- A recording is deleted that no live note of the author refers to, or that they have not
uploaded. -/
theorem kept_store {s : Recordings} {path' : AudioObject} (h : s.Kept author path)
    (hdead : path' = path → (s.uploads author path).isSome →
      s.cloud.hasLiveNote author path = false) : (s.store path' none).Kept author path := by
  intro hlive own hown
  by_cases hpath : path' = path
  · exact absurd hlive (Bool.eq_false_iff.mp (hdead hpath (Option.isSome_of_mem hown)))
  · exact (Function.update_of_ne (Ne.symm hpath) _ _).trans (h hlive own hown)

variable {s t : RecordingJobs} {told : Told} {event : RecordingEvent}

/-- What holds along a run: the recording is kept, the functions bring no note to life, and they
delete recordings only of notes that they have been told of. -/
structure Inv (asText : Value → String) (author : String) (path : AudioObject) (s : RecordingJobs)
    (told : Told) : Prop where
  kept : s.state.Kept author path
  issues : ∀ running ∈ s.running,
    running.program.Issues (fun _ _ => True) RecordingOperation.SparesNotes
  obeys : s.Obeys RecordingOperation.perform RecordingOperation.learn
    (RecordingJob.MayDelete asText) told

/-- A step that spares the recording keeps it. -/
theorem kept_step (h : Inv asText author path s told)
    (hspares : Spares asText author path (s, told) event)
    (hstep : step asText s event = some t) : t.state.Kept author path := by
  cases event with
  | environment written =>
    obtain ⟨state, hcommits, rfl⟩ := Jobs.environment_step.mp hstep
    cases written with
    | documents batch =>
      obtain ⟨cloud, hcloud, rfl⟩ := Option.map_eq_some_iff.mp hcommits
      refine kept_documents h.kept fun hlive => ?_
      by_cases huid : batch.uid = author
      · obtain ⟨-, hcommit⟩ := Backend.commits_eq_some hcloud
        cases hbefore : s.state.cloud.hasLiveNote author path with
        | false => exact .inr (hspares huid hbefore ⟨cloud, by rw [hcommit]; rfl, hlive⟩)
        | true => exact .inl rfl
      · exact .inl (hasLiveNote_of_commits huid hcloud hlive)
    | object uid path' resource =>
      rw [commits] at hcommits
      split_ifs at hcommits with hpermits
      obtain rfl := Option.some.inj hcommits
      exact kept_write h.kept hpermits hspares
  | start job =>
    obtain rfl := Jobs.start_step.mp hstep
    exact h.kept
  | advance i =>
    obtain ⟨running, op, k, hi, hprogram, rfl⟩ := Jobs.advance_step.mp hstep
    have hop := (h.issues running (List.mem_of_getElem? hi)).next (congrArg next? hprogram)
    have hobeys := h.obeys i running hi
    rw [hprogram] at hobeys
    dsimp only
    rw [hprogram, advance_call_snd]
    cases op with
    | base op => exact kept_documents h.kept fun hlive => .inl (hasLiveNote_of_sparesNotes hop hlive)
    | side path' =>
      refine kept_store h.kept ?_
      rintro rfl hupload
      obtain ⟨note, hnote, hremoves⟩ := hobeys.1 path' rfl
      -- a live note would have to be spared by the function
      refine Bool.eq_false_iff.mpr fun hlive => ?_
      exact Bool.false_ne_true ((hspares hupload hlive running hi note hnote).symm.trans hremoves)
  | lose i failure =>
    obtain ⟨running, op, k, hi, hprogram, rfl⟩ := Jobs.lose_step.mp hstep
    exact h.kept

theorem inv_step (h : Inv asText author path s told)
    (hspares : Spares asText author path (s, told) event) (hstep : step asText s event = some t) :
    Inv asText author path t (Jobs.learnt RecordingOperation.learn told s event t) where
  kept := kept_step h hspares hstep
  issues := Jobs.issues_step (fun _ => RecordingOperation.SparesNotes) (issues_recordingJob asText)
    h.issues hstep
  obeys := Jobs.obeys_step h.obeys (obeyed_recordingJob asText) hstep

theorem inv_begin (asText : Value → String) (author : String) (path : AudioObject) (cloud : Cloud)
    (objects : AudioObject → Option Bytes) :
    Inv asText author path ⟨⟨cloud, objects, fun _ _ => none⟩, []⟩ fun _ => [] where
  kept := by
    intro _ bytes hbytes
    cases hbytes
  issues := by simp
  obeys := by simp [Jobs.Obeys]

/-- In every run whose steps spare them, the recordings of an author's live notes are kept, from any
documents and recordings on which nothing runs and nobody has uploaded yet. -/
theorem kept_of_spares (asText : Value → String) (author : String) (path : AudioObject)
    (cloud : Cloud) (objects : AudioObject → Option Bytes) {events : List RecordingEvent}
    (hspares : EachStep (recorded (step asText) (Jobs.learnt RecordingOperation.learn))
      (Spares asText author path) (⟨⟨cloud, objects, fun _ _ => none⟩, []⟩, fun _ => []) events) :
    Always (step asText) (fun s => s.state.Kept author path)
      ⟨⟨cloud, objects, fun _ _ => none⟩, []⟩ events := by
  refine .of_recorded (I := Inv asText author path)
    (fun _ _ _ _ h hspares hstep => inv_step h hspares hstep) (fun _ _ h => h.kept) ?_ hspares
  exact inv_begin asText author path cloud objects

/-! ### A recording that is swept -/

/-- `ann` shares her piece with `bob`. -/
def annsDuet : Cloud := Cloud.empty.store (.pieces "piece") (some (Assoc.ofList
  [("ownerId", .string "ann"), ("participantIds", .array [.string "ann", .string "bob"])]))

/-- What a template makes of a string is the string. -/
def stringText : Value → String
  | .string s => s
  | _ => ""

/-- `bob` records a note and tombstones another one, whose recording a sweep deletes. -/
def bobTombstones : List RecordingEvent :=
  [.environment (.object "bob" ⟨"piece", "old"⟩ (some [0])),
    .environment (.object "bob" ⟨"piece", "take"⟩ (some [1])),
    .environment (.documents ⟨"bob", [
      .set (.notes "piece" "note") (Assoc.ofList
        [("authorId", .string "bob"), ("audioAssetId", .string "take"), ("deletedAt", .null)]),
      .set (.notes "piece" "oldNote") (Assoc.ofList [("authorId", .string "bob"),
        ("audioAssetId", .string "old"), ("deletedAt", .timestamp 5)])]⟩),
    .start (.gcTombstones 10 fun _ => true), .advance 0, .advance 0, .advance 0]

theorem kept_of_spares_bobTombstones : ∃ t, run (step stringText)
    ⟨⟨annsDuet, fun _ => none, fun _ _ => none⟩, []⟩ bobTombstones = some t ∧
      t.state.objects ⟨"piece", "old"⟩ = none ∧
        t.state.cloud.hasLiveNote "bob" ⟨"piece", "take"⟩ = true ∧
          Always (step stringText) (fun s => s.state.Kept "bob" ⟨"piece", "take"⟩)
            ⟨⟨annsDuet, fun _ => none, fun _ _ => none⟩, []⟩ bobTombstones := by
  have hruns : (run (step stringText) ⟨⟨annsDuet, fun _ => none, fun _ _ => none⟩, []⟩
      bobTombstones).any (fun t => decide (t.state.objects ⟨"piece", "old"⟩ = none) &&
        t.state.cloud.hasLiveNote "bob" ⟨"piece", "take"⟩) = true := by decide +kernel
  obtain ⟨t, hrun, ht⟩ := (Option.any_eq_true _ _).mp hruns
  obtain ⟨hgone, hlive⟩ := Bool.and_eq_true_iff.mp ht
  exact ⟨t, hrun, of_decide_eq_true hgone, hlive,
    kept_of_spares stringText "bob" ⟨"piece", "take"⟩ annsDuet (fun _ => none) (by decide +kernel)⟩

/-! ### A recording that is replaced -/

/-- `bob` records a note, and `ann` uploads another recording under the same id. -/
def annReplaces : List RecordingEvent :=
  [.environment (.object "bob" ⟨"piece", "take"⟩ (some [1])),
    .environment (.documents ⟨"bob", [.set (.notes "piece" "note") (Assoc.ofList
      [("authorId", .string "bob"), ("audioAssetId", .string "take"), ("deletedAt", .null)])]⟩),
    .environment (.object "ann" ⟨"piece", "take"⟩ (some [2]))]

/-- The recording of `bob`'s live note is not what he uploaded. -/
theorem not_kept : ∃ t, run (step stringText) ⟨⟨annsDuet, fun _ => none, fun _ _ => none⟩, []⟩
    annReplaces = some t ∧ ¬t.state.Kept "bob" ⟨"piece", "take"⟩ := by
  have hrun : (run (step stringText) ⟨⟨annsDuet, fun _ => none, fun _ _ => none⟩, []⟩
      annReplaces).map (fun t => (t.state.cloud.hasLiveNote "bob" ⟨"piece", "take"⟩,
        t.state.uploads "bob" ⟨"piece", "take"⟩, t.state.objects ⟨"piece", "take"⟩)) =
      some (true, some [1], some [2]) := by decide +kernel
  obtain ⟨t, ht, hstate⟩ := Option.map_eq_some_iff.mp hrun
  simp only [Prod.mk.injEq] at hstate
  refine ⟨t, ht, fun hkept => ?_⟩
  have hholds := hkept hstate.1 [1] hstate.2.1
  rw [hstate.2.2] at hholds
  cases hholds

end Recordings

end Duet
