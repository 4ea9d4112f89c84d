import Duet.Cloud.LayerRevs
import Duet.Cloud.MigrationConvergence

/-!
# Edits on what is being migrated

A piece can be opened in the cloud as soon as it has its document, before its slice is written, and
a pass that comes back to it replaces the whole slice. What the user has drawn or recorded on the
piece until then is in the slice no more. Once the piece is recorded, no pass writes its slice.

## Main definitions

* `Edit.Effect` — what an edit writes.
* `EditedMigration.step` — passes, and the user's edits in between and during them.
* `WritesUnrecorded` — the batches of a pass are for pieces that are not recorded yet.

## Main results

* `obeys_migrate` — a pass writes slices of such pieces only, whatever becomes of its operations.
* `keepsEdits_of_addsToMigrated` — edits that add only to recorded pieces are kept.
-/

namespace Duet

open Lib Program LocalPieceMigrator

/-! ## What an edit writes -/

/-- The repository's operation in the cloud for an edit. -/
def Edit.performCloud (user : String) (now : DateTime) : Edit → AdminProgram Unit
  | .addStroke pieceId stroke => Firestore.addStroke user now pieceId stroke
  | .eraseStroke pieceId strokeId => Firestore.eraseStroke user now pieceId strokeId
  | .addAudioNote pieceId note => Firestore.addAudioNote user pieceId note
  | .deleteAudioNote pieceId noteId => Firestore.deleteAudioNote user now pieceId noteId

/-- The stroke is in the user's layer of the piece. -/
def Cloud.HasStroke (cloud : Cloud) (uid : String) (r : String × InkStroke) : Prop :=
  ∃ data strokes, cloud.doc (.layers r.1 uid) = some data ∧ strokesFromLayer data = some strokes ∧
    r.2 ∈ strokes

/-- The note is there as it has been added. -/
def Cloud.HasNote (cloud : Cloud) (r : String × AudioNote) : Prop :=
  cloud.doc (.notes r.1 r.2.id) = some (audioNoteToFirestore r.2)

/-- What an edit writes when it takes effect. -/
inductive Edit.Effect (uid : String) (cloud : Cloud) : Edit → List Write → Prop where
  | nothing (edit : Edit) : Effect uid cloud edit []
  | addStroke (pieceId : String) (stroke : InkStroke) (fields : Fields) (old : List InkStroke)
    (hold : ∀ r, cloud.HasStroke uid r → r.1 = pieceId → r.2 ∈ old)
    (hnew : strokesFromLayer fields = some (old ++ [stroke])) :
    Effect uid cloud (.addStroke pieceId stroke) [.set (.layers pieceId uid) fields]
  | eraseStroke (pieceId strokeId owner : String) (fields : Fields) (old : List InkStroke)
    (hold : ∀ r, cloud.HasStroke owner r → r.1 = pieceId → r.2 ∈ old)
    (hnew : strokesFromLayer fields = some (old.filter fun s => s.id != strokeId)) :
    Effect uid cloud (.eraseStroke pieceId strokeId) [.set (.layers pieceId owner) fields]
  | addAudioNote (pieceId : String) (note : AudioNote) : Effect uid cloud
    (.addAudioNote pieceId note) [.set (.notes pieceId note.id) (audioNoteToFirestore note)]
  | deleteAudioNote (pieceId noteId : String) (changes : List (String × Change)) :
    Effect uid cloud (.deleteAudioNote pieceId noteId) [.update (.notes pieceId noteId) changes]

section

variable {uid : String} {now : DateTime} {cloud : Cloud}

theorem strokes_of_layerFromFirestore {owner : String} {data : Fields} {layer : InkLayer}
    (h : layerFromFirestore owner data = some layer) :
    strokesFromLayer data = some layer.strokes := by
  obtain ⟨role, -, h⟩ := Option.bind_eq_some_iff.mp h
  obtain ⟨strokes, hstrokes, h⟩ := Option.bind_eq_some_iff.mp h
  obtain ⟨updatedAt, -, h⟩ := Option.bind_eq_some_iff.mp h
  obtain rfl := Option.some.inj h
  exact hstrokes

/-- A layer is rewritten with the strokes that it has, changed. -/
theorem effective_rewriteLayer {pieceId owner : String} {data : Fields} (now : DateTime)
    (hdoc : cloud.doc (.layers pieceId owner) = some data)
    (change : List InkStroke → List InkStroke) :
    (Firestore.rewriteLayer now (.layers pieceId owner) data change).effective cloud = [] ∨
      ∃ fields old, (∀ r, cloud.HasStroke owner r → r.1 = pieceId → r.2 ∈ old) ∧
        strokesFromLayer fields = some (change old) ∧
        (Firestore.rewriteLayer now (.layers pieceId owner) data change).effective cloud =
          [.set (.layers pieceId owner) fields] := by
  unfold Firestore.rewriteLayer
  split
  · next layer rev hlayer _ =>
    refine .inr ⟨_, layer.strokes, ?_, strokesFromLayer_layerToFirestore _ rev now, rfl⟩
    rintro ⟨_, stroke⟩ ⟨data', strokes, hdata, hstrokes, hmem⟩ rfl
    obtain rfl := Option.some.inj (hdoc.symm.trans hdata)
    obtain rfl := Option.some.inj (hstrokes.symm.trans (strokes_of_layerFromFirestore hlayer))
    exact hmem
  · exact .inl rfl

/-- An operation that has the effect of the edit wherever it is performed. -/
abbrev Edit.Issued (uid : String) (edit : Edit) (op : Operation) : Prop :=
  ∀ cloud : Cloud, edit.Effect uid cloud (op.effective cloud)

theorem issues_addStroke (pieceId : String) (stroke : InkStroke) :
    (Firestore.addStroke uid now pieceId stroke).Issues Selects
      (Edit.Issued uid (.addStroke pieceId stroke)) := by
  unfold Firestore.addStroke
  split_ifs with hauthor
  · trivial
  rw [not_not] at hauthor
  refine ⟨fun cloud => ?_, fun _ _ => trivial⟩
  rw [Operation.effective, Transaction.effective, hauthor]
  cases hdoc : cloud.doc (.layers pieceId uid) with
  | some data =>
    obtain hnone | ⟨fields, old, hold, hnew, heffective⟩ :=
      effective_rewriteLayer now hdoc fun strokes => strokes ++ [stroke]
    · dsimp only
      rw [hnone]
      exact .nothing _
    · dsimp only
      rw [heffective]
      exact .addStroke pieceId stroke fields old hold hnew
  | none =>
    refine .addStroke pieceId stroke _ [] ?_ (strokesFromLayer_layerToFirestore _ _ _)
    rintro ⟨_, _⟩ ⟨data, strokes, hdata, -⟩ rfl
    cases hdoc.symm.trans hdata

/-- What follows the search for a stroke, on the document that it comes to. -/
theorem issues_strokeHolder_bind {user strokeId : String} {docs : List (DocPath × Fields)}
    {can : (op : Operation) → op.Response → Prop} {ok : Operation → Prop}
    {f : DocPath → AdminProgram Unit} (h : ∀ entry ∈ docs, (f entry.1).Issues can ok) :
    (Firestore.strokeHolder user strokeId docs >>= f).Issues can ok := by
  induction docs with
  | nil => trivial
  | cons entry docs ih =>
    obtain ⟨ref, data⟩ := entry
    rw [Firestore.strokeHolder]
    cases strokesFromLayer data with
    | none => trivial
    | some strokes =>
      simp only [Program.orFail_some, Program.done_bind]
      split
      · exact ih fun entry hentry => h entry (List.mem_cons_of_mem _ hentry)
      · split_ifs
        · trivial
        · exact h (ref, data) List.mem_cons_self

theorem issues_eraseStroke (pieceId strokeId : String) :
    (Firestore.eraseStroke uid now pieceId strokeId).Issues Selects
      (Edit.Issued uid (.eraseStroke pieceId strokeId)) := by
  refine .perform_bind (fun cloud => .nothing _) fun docs hdocs =>
    issues_strokeHolder_bind fun entry hentry => ⟨fun cloud => ?_, fun _ _ => trivial⟩
  obtain ⟨path, fields⟩ := entry
  have hselects : (Query.layersOf pieceId).selects path fields = true := hdocs _ hentry
  cases path with
  | layers piece owner =>
    obtain rfl : piece = pieceId := by simpa [Query.selects] using hselects
    rw [Operation.effective, Transaction.effective]
    cases hdoc : cloud.doc (.layers piece owner) with
    | none => exact .nothing _
    | some data =>
      obtain hnone | ⟨fields, old, hold, hnew, heffective⟩ := effective_rewriteLayer now hdoc
        fun strokes => strokes.filter fun s => s.id != strokeId
      · dsimp only
        rw [hnone]
        exact .nothing _
      · dsimp only
        rw [heffective]
        exact .eraseStroke piece strokeId owner fields old hold hnew
  | _ => cases hselects

theorem issues_addAudioNote (pieceId : String) (note : AudioNote) :
    (Firestore.addAudioNote uid pieceId note).Issues Selects
      (Edit.Issued uid (.addAudioNote pieceId note)) := by
  unfold Firestore.addAudioNote
  split_ifs
  · trivial
  · exact ⟨fun cloud => .addAudioNote pieceId note, fun _ _ => trivial⟩

theorem issues_deleteAudioNote (pieceId noteId : String) :
    (Firestore.deleteAudioNote uid now pieceId noteId).Issues Selects
      (Edit.Issued uid (.deleteAudioNote pieceId noteId)) := by
  refine .perform_bind (fun cloud => .nothing _) fun snapshot _ => ?_
  cases snapshot with
  | none => trivial
  | some data =>
    dsimp only
    split_ifs
    · trivial
    · trivial
    · refine ⟨fun cloud => ?_, fun _ _ => trivial⟩
      change Edit.Effect uid cloud _ (if _ then _ else _)
      split_ifs
      · exact .deleteAudioNote pieceId noteId _
      · exact .nothing _

theorem issues_edit (edit : Edit) :
    (edit.performCloud uid now).Issues Selects (edit.Issued uid) := by
  cases edit with
  | addStroke pieceId stroke => exact issues_addStroke pieceId stroke
  | eraseStroke pieceId strokeId => exact issues_eraseStroke pieceId strokeId
  | addAudioNote pieceId note => exact issues_addAudioNote pieceId note
  | deleteAudioNote pieceId noteId => exact issues_deleteAudioNote pieceId noteId

end

/-! ## What the user has in the cloud -/

/-- The strokes that the user has added and not erased, once the edit has taken effect. -/
def Edit.strokesAfter : Edit → List (String × InkStroke) → List (String × InkStroke)
  | .addStroke pieceId stroke, strokes => strokes ++ [(pieceId, stroke)]
  | .eraseStroke pieceId strokeId, strokes =>
    strokes.filter fun r => !(r.1 == pieceId && r.2.id == strokeId)
  | _, strokes => strokes

/-- The notes likewise; adding a note again replaces it. -/
def Edit.notesAfter : Edit → List (String × AudioNote) → List (String × AudioNote)
  | .addAudioNote pieceId note, notes =>
    notes.filter (fun r => !(r.1 == pieceId && r.2.id == note.id)) ++ [(pieceId, note)]
  | .deleteAudioNote pieceId noteId, notes =>
    notes.filter fun r => !(r.1 == pieceId && r.2.id == noteId)
  | _, notes => notes

section

variable {uid owner pieceId : String} {cloud cloud' : Cloud} {r : String × InkStroke}
  {fields : Fields} {strokes : List InkStroke}

theorem Cloud.HasStroke.of_doc (h : cloud.HasStroke uid r)
    (hdoc : cloud'.doc (.layers r.1 uid) = cloud.doc (.layers r.1 uid)) :
    cloud'.HasStroke uid r := by
  obtain ⟨data, strokes, hdata, hread⟩ := h
  exact ⟨data, strokes, hdoc.trans hdata, hread⟩

/-- A layer is stored that has the stroke, if it is the user's. -/
theorem Cloud.HasStroke.store (h : cloud.HasStroke uid r)
    (hstrokes : strokesFromLayer fields = some strokes)
    (hmem : r.1 = pieceId → uid = owner → r.2 ∈ strokes) :
    (cloud.store (.layers pieceId owner) (some fields)).HasStroke uid r := by
  by_cases hpath : (DocPath.layers r.1 uid) = .layers pieceId owner
  · obtain ⟨hpiece, howner⟩ := DocPath.layers.inj hpath
    exact ⟨fields, strokes, by rw [hpath, doc_store_self], hstrokes, hmem hpiece howner⟩
  · exact h.of_doc (cloud.doc_store_of_ne hpath _)

end

namespace Edit.Effect

variable {uid : String} {cloud cloud' : Cloud} {edit : Edit} {writes : List Write}
  {strokes : List (String × InkStroke)} {notes : List (String × AudioNote)}

/-- The strokes that the user has are there when the edit has taken effect. -/
theorem hasStrokes (h : edit.Effect uid cloud writes) (hok : cloud.commit writes = .ok cloud')
    (hstrokes : ∀ r ∈ strokes, cloud.HasStroke uid r) :
    ∀ r ∈ if writes = [] then strokes else edit.strokesAfter strokes, cloud'.HasStroke uid r := by
  intro r hr
  cases h with
  | nothing =>
    obtain rfl := Except.ok.inj hok
    exact hstrokes r hr
  | addStroke pieceId stroke fields old hold hnew =>
    obtain rfl := Except.ok.inj hok
    rw [if_neg (List.cons_ne_nil _ _)] at hr
    obtain hr | hr := List.mem_append.mp hr
    · refine (hstrokes r hr).store hnew fun hpiece _ => ?_
      exact List.mem_append_left _ (hold r (hstrokes r hr) hpiece)
    · obtain rfl := List.mem_singleton.mp hr
      exact ⟨fields, _, cloud.doc_store_self _ _, hnew, by simp⟩
  | eraseStroke pieceId strokeId owner fields old hold hnew =>
    obtain rfl := Except.ok.inj hok
    rw [if_neg (List.cons_ne_nil _ _)] at hr
    obtain ⟨hr, hkept⟩ := List.mem_filter.mp hr
    refine (hstrokes r hr).store hnew fun hpiece howner => List.mem_filter.mpr ⟨?_, ?_⟩
    · exact hold r (howner ▸ hstrokes r hr) hpiece
    · simpa [hpiece] using hkept
  | addAudioNote pieceId note =>
    obtain rfl := Except.ok.inj hok
    rw [if_neg (List.cons_ne_nil _ _)] at hr
    exact (hstrokes r hr).of_doc (cloud.doc_store_of_ne (by simp [Write.path]) _)
  | deleteAudioNote pieceId noteId changes =>
    rw [if_neg (List.cons_ne_nil _ _)] at hr
    obtain ⟨fields, -, rfl⟩ := Cloud.commit_singleton.mp hok
    exact (hstrokes r hr).of_doc (cloud.doc_store_of_ne (by simp [Write.path]) _)

/-- And the notes. -/
theorem hasNotes (h : edit.Effect uid cloud writes) (hok : cloud.commit writes = .ok cloud')
    (hnotes : ∀ r ∈ notes, cloud.HasNote r) :
    ∀ r ∈ if writes = [] then notes else edit.notesAfter notes, cloud'.HasNote r := by
  intro r hr
  cases h with
  | nothing =>
    obtain rfl := Except.ok.inj hok
    exact hnotes r hr
  | addStroke pieceId stroke fields old hold hnew =>
    obtain rfl := Except.ok.inj hok
    rw [if_neg (List.cons_ne_nil _ _)] at hr
    exact (cloud.doc_store_of_ne (by simp [Write.path]) _).trans (hnotes r hr)
  | eraseStroke pieceId strokeId owner fields old hold hnew =>
    obtain rfl := Except.ok.inj hok
    rw [if_neg (List.cons_ne_nil _ _)] at hr
    exact (cloud.doc_store_of_ne (by simp [Write.path]) _).trans (hnotes r hr)
  | addAudioNote pieceId note =>
    obtain rfl := Except.ok.inj hok
    rw [if_neg (List.cons_ne_nil _ _)] at hr
    obtain hr | hr := List.mem_append.mp hr
    · obtain ⟨hr, hkept⟩ := List.mem_filter.mp hr
      refine (cloud.doc_store_of_ne ?_ _).trans (hnotes r hr)
      simpa [Write.path, imp_iff_not_or] using hkept
    · obtain rfl := List.mem_singleton.mp hr
      exact cloud.doc_store_self _ _
  | deleteAudioNote pieceId noteId changes =>
    rw [if_neg (List.cons_ne_nil _ _)] at hr
    obtain ⟨hr, hkept⟩ := List.mem_filter.mp hr
    obtain ⟨fields, -, rfl⟩ := Cloud.commit_singleton.mp hok
    refine (cloud.doc_store_of_ne ?_ _).trans (hnotes r hr)
    simpa [Write.path, imp_iff_not_or] using hkept

end Edit.Effect

/-! ## Passes and edits -/

/-- An edit that the user makes in the cloud, and its clock. -/
structure CloudEdit where
  now : DateTime
  edit : Edit
  deriving DecidableEq, Repr

/-- An operation of an edit, on the cloud that the passes write to. -/
def Migration.onCloud : Interpreter Operation Operation.Response CloudFailure Migration
  | op, m =>
    let (response, cloud) := op.perform m.state.cloud
    (response, { m with state := { m.state with cloud := cloud } })

/-- The passes and the edits that run; the strokes and notes that the user has added in the cloud,
with their pieces, and not erased or deleted. -/
structure EditedMigration where
  jobs : Jobs CloudEdit Operation Operation.Response CloudFailure Unit Migration
  strokes : List (String × InkStroke)
  notes : List (String × AudioNote)

/-- A step of a pass, or of an edit. -/
abbrev EditedMigrationEvent := JobEvent MigrationEvent CloudEdit CloudFailure

namespace EditedMigration

/-- No pass has been made, and no edit. -/
def begin (start : Client) : EditedMigration := ⟨⟨.idle start, []⟩, [], []⟩

def cloud (s : EditedMigration) : Cloud := s.jobs.state.state.cloud

/-- The edit's next operation has had its effect, if its writes are any. -/
def record (s : EditedMigration) (running : RunningJob CloudEdit Operation Operation.Response
    CloudFailure Unit) : EditedMigration :=
  match running.program.next? with
  | none => s
  | some op =>
    let writes := op.effective s.cloud
    { s with
      strokes := if writes = [] then s.strokes else running.job.edit.strokesAfter s.strokes
      notes := if writes = [] then s.notes else running.job.edit.notesAfter s.notes }

section

variable (platform : Platform) (uid : String)

def step (s : EditedMigration) (e : EditedMigrationEvent) : Option EditedMigration :=
  (Jobs.step (fun job : CloudEdit => job.edit.performCloud uid job.now) Migration.onCloud
      (Migration.step platform uid) s.jobs e).map fun jobs =>
    match e with
    | .advance i =>
      match s.jobs.running[i]? with
      | some running => { s.record running with jobs := jobs }
      | none => { s with jobs := jobs }
    | _ => { s with jobs := jobs }

/-- What the user has added, and not erased or deleted, is in the cloud. -/
def KeepsEdits (s : EditedMigration) : Prop :=
  (∀ r ∈ s.strokes, s.cloud.HasStroke uid r) ∧ ∀ r ∈ s.notes, s.cloud.HasNote r

end

/-- The ids that are recorded. -/
def recordedIds (uid : String) (s : EditedMigration) : List String :=
  s.jobs.state.state.migratedIds uid

end EditedMigration

/-- The piece that an edit adds something to. -/
def Edit.addsTo? : Edit → Option String
  | .addStroke pieceId _ | .addAudioNote pieceId _ => some pieceId
  | .eraseStroke _ _ | .deleteAudioNote _ _ => none

namespace EditedMigration

/-- In this step an edit adds something to the piece. -/
def AddsTo (s : EditedMigration) (pieceId : String) : EditedMigrationEvent → Prop
  | .advance i => ∃ running ∈ s.jobs.running[i]?, ∃ op ∈ running.program.next?,
      op.effective s.cloud ≠ [] ∧ running.job.edit.addsTo? = some pieceId
  | _ => False

instance (s : EditedMigration) (pieceId : String) :
    (e : EditedMigrationEvent) → Decidable (s.AddsTo pieceId e)
  | .advance i => inferInstanceAs (Decidable (∃ running ∈ s.jobs.running[i]?,
      ∃ op ∈ running.program.next?, op.effective s.cloud ≠ [] ∧
        running.job.edit.addsTo? = some pieceId))
  | .environment _ | .start _ | .lose _ _ => inferInstanceAs (Decidable False)

/-- The user adds something to a piece of the device only when the piece is recorded as migrated. -/
def AddsToMigrated (uid : String) (start : Client) (s : EditedMigration)
    (e : EditedMigrationEvent) : Prop :=
  ∀ piece ∈ start.device.pieces, s.AddsTo piece.id e → piece.id ∈ s.recordedIds uid

instance (uid : String) (start : Client) (s : EditedMigration) (e : EditedMigrationEvent) :
    Decidable (s.AddsToMigrated uid start e) :=
  inferInstanceAs (Decidable (∀ piece ∈ start.device.pieces, s.AddsTo piece.id e →
    piece.id ∈ s.recordedIds uid))

end EditedMigration

/-! ## What passes write -/

namespace LocalPieceMigrator

/-- What an operation of a pass can respond and make of the recorded ids, whatever the documents are
that it finds. -/
def RecordsNext (platform : Platform) (uid : String) (pieces : List Piece) (o : ClientOperation)
    (ids : List String) (r : Except CloudFailure o.Response) (ids' : List String) : Prop :=
  ∃ (client : Client) (given : Given) (fate : Fate CloudFailure), client.device.pieces = pieces ∧
    client.migratedIds uid = ids ∧ (fate.apply client (o.perform platform given client)).1 = r ∧
      (fate.apply client (o.perform platform given client)).2.migratedIds uid = ids'

/-- A batch is for a piece that is not recorded, and no record is lost. -/
def WritesUnrecorded (uid : String) (pieces : List Piece) (o : ClientOperation)
    (ids : List String) : Prop :=
  match o with
  | .firestore (.commit writes) => ∃ piece ∈ pieces, piece.id ∉ ids ∧ Writes uid piece.id writes
  | .firestore (.transaction _) => False
  | .writeMigrated _ ids' => ids ⊆ ids'
  | _ => True

section

variable {platform : Platform} {uid : String} {pieces : List Piece} {piece : Piece}
  {ids ids' : List String} {o : ClientOperation} {r : Except CloudFailure o.Response}

theorem RecordsNext.responds (h : RecordsNext platform uid pieces o ids r ids') :
    Responds pieces o r := by
  obtain ⟨client, given, fate, hpieces, -, rfl, -⟩ := h
  exact responds_apply hpieces platform given fate o

/-- What is read is what is recorded. -/
theorem RecordsNext.read {read : List String}
    (h : RecordsNext platform uid pieces (.readMigrated uid) ids (.ok read) ids') : read = ids := by
  obtain ⟨client, given, fate, -, rfl, hread, -⟩ := h
  cases fate with
  | performed => exact (Except.ok.inj hread).symm
  | refused e => cases hread
  | unreported e => cases hread

/-- Only a record changes what is recorded. -/
theorem RecordsNext.same (h : RecordsNext platform uid pieces o ids r ids')
    (ho : ∀ uid' written, o ≠ .writeMigrated uid' written) : ids' = ids := by
  obtain ⟨client, given, fate, -, rfl, -, rfl⟩ := h
  have hmigrated : (o.perform platform given client).2.migrated = client.migrated :=
    Migration.migrated_perform ho
  cases fate with
  | refused e => rfl
  | performed => exact congrArg (fun migrated => (Assoc.get migrated uid).getD []) hmigrated
  | unreported e => exact congrArg (fun migrated => (Assoc.get migrated uid).getD []) hmigrated

/-- A record is made or not. -/
theorem RecordsNext.written {written : List String} {r : Except CloudFailure Unit}
    (h : RecordsNext platform uid pieces (.writeMigrated uid written) ids r ids') :
    ids' = ids ∨ ids' = written := by
  obtain ⟨client, given, fate, -, rfl, -, rfl⟩ := h
  have hset : Client.migratedIds { client with migrated := client.migrated.set uid written } uid =
      written := by
    rw [Client.migratedIds, Assoc.get_set_self, Option.getD_some]
  cases fate with
  | refused e => exact .inl rfl
  | performed => exact .inr hset
  | unreported e => exact .inr hset

/-- What migrates a piece records nothing, and its batches are for the piece. -/
theorem obeys_migrateOne (hpiece : piece ∈ pieces) (hid : piece.id ∉ ids) :
    (migrateOne uid piece platform).Obeys (RecordsNext platform uid pieces)
      (WritesUnrecorded uid pieces) (fun _ ids' => ids' = ids) ids := by
  have hissues : (migrateOne uid piece platform).Issues (Responds pieces)
      (StagedOrIssued uid piece) := stages_migrateOne
  refine hissues.obeys (A := fun ids' => ids' = ids) (fun o ids' ho hids => ?_)
    (fun o ids' r ids'' ho hids hnext => ⟨hnext.responds, ?_⟩) rfl
  · subst hids
    obtain hissued | ⟨source, dest, rfl⟩ := ho
    · cases o with
      | firestore op =>
        cases op with
        | commit writes => exact ⟨piece, hpiece, hid, hissued⟩
        | transaction body => exact hissued
        | _ => trivial
      | writeMigrated uid' written => exact hissued.elim
      | _ => trivial
    · trivial
  · refine (hnext.same ?_).trans hids
    rintro uid' written rfl
    obtain hissued | ⟨_, _, hcopy⟩ := ho
    · exact hissued
    · cases hcopy

theorem obeys_markMigrated (pieceId : String) :
    (markMigrated uid pieceId).Obeys (RecordsNext platform uid pieces)
      (WritesUnrecorded uid pieces) (fun _ ids' => ids' = ids ∨ ids' = addId ids pieceId) ids := by
  refine .bind (.ask trivial fun r ids' hnext => ?_)
  obtain rfl := hnext.same (by simp)
  cases r with
  | error e => exact .inl rfl
  | ok read =>
    obtain rfl : read = ids' := hnext.read
    refine .ask (fun id hid => mem_addId.mpr (.inr hid)) fun r ids'' hnext => ?_
    exact hnext.written

/-- A pass that goes on with pieces that are not recorded unless it has found them so. -/
theorem obeys_migrateEach {migrated : List String} {rest : List Piece}
    (hrest : ∀ piece ∈ rest, piece ∈ pieces) (hnodup : (rest.map (·.id)).Nodup)
    (hids : ∀ piece ∈ rest, piece.id ∉ migrated → piece.id ∉ ids) (result : MigrationResult) :
    (migrateEach uid platform migrated rest result).Obeys (RecordsNext platform uid pieces)
      (WritesUnrecorded uid pieces) (fun _ _ => True) ids := by
  induction rest generalizing ids result with
  | nil => trivial
  | cons piece rest ih =>
    have hrest' : ∀ p ∈ rest, p ∈ pieces := fun p hp => hrest p (List.mem_cons_of_mem _ hp)
    obtain ⟨hnotMem, hnodup⟩ := List.nodup_cons.mp hnodup
    have hids' : ∀ p ∈ rest, p.id ∉ migrated → p.id ∉ ids := fun p hp =>
      hids p (List.mem_cons_of_mem _ hp)
    rw [migrateEach]
    split_ifs with hdone
    · exact ih hrest' hnodup hids' result
    have hone : (migrateOne uid piece platform).Obeys (RecordsNext platform uid pieces)
        (WritesUnrecorded uid pieces) (fun _ ids' => ids' = ids) ids :=
      obeys_migrateOne (hrest piece (by simp)) (hids piece (by simp) (by simpa using hdone))
    refine .bind (.attempt (hone.mono ?_))
    rintro (e | a) ids' rfl
    · exact ih hrest' hnodup hids' _
    refine .bind ((obeys_markMigrated piece.id).mono ?_)
    rintro (e | b) ids'' hwritten
    · trivial
    refine ih hrest' hnodup (fun p hp hnot => ?_) _
    obtain rfl | rfl := hwritten
    · exact hids' p hp hnot
    · intro hmem
      obtain heq | hold := mem_addId.mp hmem
      · exact hnotMem (List.mem_map.mpr ⟨p, hp, heq⟩)
      · exact hids' p hp hnot hold

/-- The batches of a pass are for pieces that are not recorded. -/
theorem obeys_migrate (hnodup : (pieces.map (·.id)).Nodup) :
    (migrate uid platform).Obeys (RecordsNext platform uid pieces) (WritesUnrecorded uid pieces)
      (fun _ _ => True) ids := by
  refine .bind (.ask trivial fun r ids' hnext => ?_)
  cases r with
  | error e => trivial
  | ok migrated =>
    obtain rfl : migrated = ids := hnext.read
    obtain rfl := hnext.same (by simp)
    refine .bind (.ask trivial fun r ids'' hnext => ?_)
    cases r with
    | error e => trivial
    | ok stored =>
      obtain rfl : stored = pieces := hnext.responds
      obtain rfl := hnext.same (by simp)
      exact obeys_migrateEach (fun _ h => h) hnodup (fun _ _ h => h) _

/-- A batch leaves the layers and the notes of other pieces alone. -/
theorem Writes.doc_of_ne {pieceId : String} {writes : List Write} (h : Writes uid pieceId writes)
    {cloud cloud' : Cloud} (hok : cloud.commit writes = .ok cloud') {path : DocPath}
    (hpath : ¬path.OfPiece pieceId) : cloud'.doc path = cloud.doc path := by
  suffices hwrites : ∀ write ∈ writes, write.path.OfPiece pieceId from
    Cloud.doc_commit_of_not hwrites hpath hok
  intro write hwrite
  cases h with
  | piece fields =>
    obtain rfl := List.mem_singleton.mp hwrite
    rfl
  | uploaded fields =>
    obtain rfl := List.mem_singleton.mp hwrite
    rfl
  | slice strokes rev now existing notes hexisting =>
    obtain rfl | hwrite := List.mem_cons.mp hwrite
    · rfl
    obtain hwrite | hwrite := List.mem_append.mp hwrite
    · obtain ⟨⟨path, data⟩, hentry, rfl⟩ := List.mem_map.mp hwrite
      have hselects := hexisting _ hentry
      cases path <;> simp_all [Query.selects, DocPath.OfPiece, Write.path]
    · obtain ⟨note, -, rfl⟩ := List.mem_map.mp hwrite
      rfl

variable {given : Given} {client : Client}

/-- No record is lost. -/
theorem WritesUnrecorded.recordedIds (client : Client)
    (h : WritesUnrecorded uid pieces o (client.migratedIds uid)) :
    client.migratedIds uid ⊆ (o.perform platform given client).2.migratedIds uid := by
  cases o with
  | writeMigrated uid' written =>
    change _ ⊆ ((client.migrated.set uid' written).get uid).getD []
    rw [Assoc.get_set]
    split_ifs
    · exact h
    · exact List.Subset.refl _
  | _ =>
    rw [Client.migratedIds, Client.migratedIds, Migration.migrated_perform (by simp)]
    exact List.Subset.refl _

/-- Only documents of pieces that are not recorded change. -/
theorem WritesUnrecorded.doc (client : Client)
    (h : WritesUnrecorded uid pieces o (client.migratedIds uid)) {path : DocPath}
    (hpath : ∀ piece ∈ pieces, path.OfPiece piece.id → piece.id ∈ client.migratedIds uid) :
    (o.perform platform given client).2.cloud.doc path = client.cloud.doc path := by
  cases o with
  | firestore op =>
    cases op with
    | get path' => rfl
    | list query => rfl
    | transaction body => exact h.elim
    | commit writes =>
      obtain ⟨piece, hpiece, hid, hwrites⟩ := h
      obtain ⟨cloud', hcommit⟩ := hwrites.commits client.cloud
      have hcloud : ((ClientOperation.firestore (.commit writes)).perform platform given
          client).2.cloud = cloud' := congrArg Prod.snd (Cloud.settle_ok hcommit)
      rw [hcloud]
      exact hwrites.doc_of_ne hcommit fun hof => hid (hpath piece hpiece hof)
  | _ => rw [ClientOperation.cloud_perform (fun _ heq => by cases heq)]

end

end LocalPieceMigrator

/-! ## Runs -/

namespace EditedMigration

variable {platform : Platform} {uid : String} {start : Client} {s t : EditedMigration}
  {e : EditedMigrationEvent}

/-- Something of the user's on the piece is safe: the piece is recorded if it is the device's. -/
def Settled (uid : String) (start : Client) (s : EditedMigration) (pieceId : String) : Prop :=
  ∀ piece ∈ start.device.pieces, piece.id = pieceId → piece.id ∈ s.recordedIds uid

/-- What every step keeps: the passes write unrecorded pieces only, what is left of an edit has its
effects, and what the user has added is on settled pieces and in the cloud. -/
structure Inv (platform : Platform) (uid : String) (start : Client) (s : EditedMigration) :
    Prop where
  pieces : s.jobs.state.state.device.pieces = start.device.pieces
  passes : ∀ q, s.jobs.state.running = some q → q.Obeys
    (RecordsNext platform uid start.device.pieces) (WritesUnrecorded uid start.device.pieces)
      (fun _ _ => True) (s.recordedIds uid)
  edits : ∀ running ∈ s.jobs.running,
    running.program.Issues Selects (running.job.edit.Issued uid)
  strokes : ∀ r ∈ s.strokes, s.Settled uid start r.1
  notes : ∀ r ∈ s.notes, s.Settled uid start r.1
  keeps : s.KeepsEdits uid

theorem inv_begin (platform : Platform) (uid : String) (start : Client) :
    (begin start).Inv platform uid start :=
  ⟨rfl, by simp [begin, Process.idle], fun _ h => absurd h List.not_mem_nil,
    fun _ h => absurd h List.not_mem_nil, fun _ h => absurd h List.not_mem_nil,
    fun _ h => absurd h List.not_mem_nil, fun _ h => absurd h List.not_mem_nil⟩

/-- What the jobs do in a step, and what it adds to what the user has. -/
theorem jobs_of_step (hstep : step platform uid s e = some t) :
    Jobs.step (fun job : CloudEdit => job.edit.performCloud uid job.now) Migration.onCloud
      (Migration.step platform uid) s.jobs e = some t.jobs := by
  obtain ⟨jobs, hjobs, rfl⟩ := Option.map_eq_some_iff.mp hstep
  rw [hjobs]
  cases e with
  | advance i =>
    dsimp only
    cases s.jobs.running[i]? <;> rfl
  | _ => rfl

/-- What is left of the edits has their effects. -/
theorem edits_step (h : s.Inv platform uid start) (hstep : step platform uid s e = some t) :
    ∀ running ∈ t.jobs.running, running.program.Issues Selects (running.job.edit.Issued uid) := by
  refine Jobs.issues_step_of (fun job : CloudEdit => job.edit.Issued uid)
    (fun op m response hresponse => ?_) (fun job => issues_edit job.edit) h.edits
      (jobs_of_step hstep)
  cases op with
  | list query =>
    obtain rfl := Except.ok.inj hresponse
    exact fun entry hentry => (Cloud.mem_list.mp hentry).2
  | _ => trivial

/-- A step of a pass: the pieces stay, records are not lost, and documents change only on pieces that
were not recorded before. -/
theorem environment_step (h : s.Inv platform uid start)
    {event : MigrationEvent} {m : Migration}
    (hm : Migration.step platform uid s.jobs.state event = some m) :
    m.state.device.pieces = start.device.pieces ∧
      s.recordedIds uid ⊆ m.state.migratedIds uid ∧
        ∀ path : DocPath, (∀ piece ∈ start.device.pieces, path.OfPiece piece.id →
          piece.id ∈ s.recordedIds uid) → m.state.cloud.doc path = s.cloud.doc path := by
  cases event with
  | begin =>
    obtain ⟨-, rfl⟩ := Process.begin_step.mp hm
    rw [Process.state_resume]
    exact ⟨h.pieces, List.Subset.refl _, fun _ _ => rfl⟩
  | kill =>
    obtain rfl := Process.kill_step.mp hm
    exact ⟨h.pieces, List.Subset.refl _, fun _ _ => rfl⟩
  | advance given fate =>
    obtain ⟨o, k, hrunning, rfl⟩ := Process.advance_step.mp hm
    have hwrites := (h.passes _ hrunning).1
    rw [Process.state_resume]
    have heffect : (o.perform platform given s.jobs.state.state).2.device.pieces =
          start.device.pieces ∧
        s.recordedIds uid ⊆ (o.perform platform given s.jobs.state.state).2.migratedIds uid ∧
          ∀ path : DocPath, (∀ piece ∈ start.device.pieces, path.OfPiece piece.id →
            piece.id ∈ s.recordedIds uid) →
              (o.perform platform given s.jobs.state.state).2.cloud.doc path = s.cloud.doc path := by
      exact ⟨(Migration.pieces_perform o).trans h.pieces, hwrites.recordedIds _,
        fun path hpath => hwrites.doc _ hpath⟩
    cases fate with
    | refused e => exact ⟨h.pieces, List.Subset.refl _, fun _ _ => rfl⟩
    | performed => exact heffect
    | unreported e => exact heffect

/-- What an edit adds in a step is on the piece that it adds to. -/
theorem mem_strokesAfter {edit : Edit} {strokes : List (String × InkStroke)} {r : String × InkStroke}
    (h : r ∈ edit.strokesAfter strokes) : r ∈ strokes ∨ edit.addsTo? = some r.1 := by
  cases edit with
  | addStroke pieceId stroke =>
    obtain hold | hnew := List.mem_append.mp h
    · exact .inl hold
    · rw [List.mem_singleton.mp hnew]
      exact .inr rfl
  | eraseStroke pieceId strokeId => exact .inl (List.mem_of_mem_filter h)
  | _ => exact .inl h

theorem mem_notesAfter {edit : Edit} {notes : List (String × AudioNote)} {r : String × AudioNote}
    (h : r ∈ edit.notesAfter notes) : r ∈ notes ∨ edit.addsTo? = some r.1 := by
  cases edit with
  | addAudioNote pieceId note =>
    obtain hold | hnew := List.mem_append.mp h
    · exact .inl (List.mem_of_mem_filter hold)
    · rw [List.mem_singleton.mp hnew]
      exact .inr rfl
  | deleteAudioNote pieceId noteId => exact .inl (List.mem_of_mem_filter h)
  | _ => exact .inl h

/-- An edit that adds only to recorded pieces keeps what the user has, with what it adds. -/
theorem inv_advance {i : Nat} (h : s.Inv platform uid start)
    (hadds : s.AddsToMigrated uid start (.advance i))
    (hstep : step platform uid s (.advance i) = some t) : t.Inv platform uid start := by
  have hedits := edits_step h hstep
  obtain ⟨jobs, hjobs, rfl⟩ := Option.map_eq_some_iff.mp hstep
  obtain ⟨running, op, k, hi, hprogram, rfl⟩ := Jobs.advance_step.mp hjobs
  have hissued := h.edits running (List.mem_of_getElem? hi)
  rw [hprogram] at hissued
  have heffect := hissued.1 s.cloud
  have hcommit := Operation.commit_effective op s.cloud
  have hsettled : ∀ pieceId, op.effective s.cloud ≠ [] →
      running.job.edit.addsTo? = some pieceId → s.Settled uid start pieceId := by
    rintro pieceId hne hto piece hpiece rfl
    refine hadds piece hpiece ⟨running, hi, op, ?_, hne, hto⟩
    rw [hprogram]
    rfl
  have hrecord : s.record running = { s with
      strokes := if op.effective s.cloud = [] then s.strokes
        else running.job.edit.strokesAfter s.strokes
      notes := if op.effective s.cloud = [] then s.notes
        else running.job.edit.notesAfter s.notes } := by
    rw [record, hprogram]
    rfl
  simp only [hi, hrecord, Program.advance_call_snd, hprogram] at hedits ⊢
  refine ⟨h.pieces, h.passes, hedits, fun r hr => ?_, fun r hr => ?_,
    heffect.hasStrokes hcommit h.keeps.1, heffect.hasNotes hcommit h.keeps.2⟩
  · dsimp only at hr
    split_ifs at hr with hnone
    · exact h.strokes r hr
    · exact (mem_strokesAfter hr).elim (h.strokes r) (hsettled r.1 hnone)
  · dsimp only at hr
    split_ifs at hr with hnone
    · exact h.notes r hr
    · exact (mem_notesAfter hr).elim (h.notes r) (hsettled r.1 hnone)

/-- A step of a pass leaves what the user has added alone: it is on settled pieces. -/
theorem inv_environment {event : MigrationEvent} (hnodup : (start.device.pieces.map (·.id)).Nodup)
    (h : s.Inv platform uid start)
    (hstep : step platform uid s (.environment event) = some t) : t.Inv platform uid start := by
  have hedits := edits_step h hstep
  obtain ⟨jobs, hjobs, rfl⟩ := Option.map_eq_some_iff.mp hstep
  obtain ⟨m, hm, rfl⟩ := Jobs.environment_step.mp hjobs
  obtain ⟨hpieces, hids, hdocs⟩ := environment_step h hm
  refine ⟨hpieces, ?_, hedits, fun r hr piece hpiece hid => hids (h.strokes r hr piece hpiece hid),
    fun r hr piece hpiece hid => hids (h.notes r hr piece hpiece hid), fun r hr => ?_, fun r hr => ?_⟩
  · refine Process.obeys_step (fun client => client.migratedIds uid)
      (fun _ => obeys_migrate hnodup) (fun given fate o => ?_) h.passes hm
    exact ⟨_, given, fate, h.pieces, rfl, rfl, rfl⟩
  · exact (h.keeps.1 r hr).of_doc
      (hdocs (.layers r.1 uid) fun piece hpiece hof => h.strokes r hr piece hpiece hof.symm)
  · exact (hdocs (.notes r.1 r.2.id) fun piece hpiece hof =>
      h.notes r hr piece hpiece hof.symm).trans (h.keeps.2 r hr)

theorem inv_step (hnodup : (start.device.pieces.map (·.id)).Nodup) (h : s.Inv platform uid start)
    (hadds : s.AddsToMigrated uid start e) (hstep : step platform uid s e = some t) :
    t.Inv platform uid start := by
  cases e with
  | environment event => exact inv_environment hnodup h hstep
  | advance i => exact inv_advance h hadds hstep
  | start job =>
    have hedits := edits_step h hstep
    obtain ⟨jobs, hjobs, rfl⟩ := Option.map_eq_some_iff.mp hstep
    obtain rfl := Jobs.start_step.mp hjobs
    exact ⟨h.pieces, h.passes, hedits, h.strokes, h.notes, h.keeps⟩
  | lose i failure =>
    have hedits := edits_step h hstep
    obtain ⟨jobs, hjobs, rfl⟩ := Option.map_eq_some_iff.mp hstep
    obtain ⟨running, op, k, -, -, rfl⟩ := Jobs.lose_step.mp hjobs
    exact ⟨h.pieces, h.passes, hedits, h.strokes, h.notes, h.keeps⟩

/-- Passes and the user's edits, interleaved: when the user adds to a piece of the device only once
it is recorded as migrated, what has been added, and not erased or deleted, is there after every
step. -/
theorem keepsEdits_of_addsToMigrated (platform : Platform)
    (hnodup : (start.device.pieces.map (·.id)).Nodup) {events : List EditedMigrationEvent}
    (hadds : EachStep (step platform uid) (AddsToMigrated uid start) (begin start) events) :
    Always (step platform uid) (KeepsEdits uid) (begin start) events :=
  .of_invariant (fun _ _ _ h he hstep => inv_step hnodup h he hstep) (fun _ h => h.keeps)
    (inv_begin platform uid start) hadds

/-- A pass runs to its end, `ann` draws on the etude, and a pass follows. -/
def drawsAfterwards : List EditedMigrationEvent :=
  let performs : EditedMigrationEvent := .environment (.advance ⟨noon, "", true⟩ .performed)
  .environment .begin :: List.replicate 25 performs ++
    [.start ⟨noon, .addStroke "etude" ⟨"s2", "ann", 0, "ink", []⟩⟩, .advance 0, .environment .begin] ++
      List.replicate 2 performs

theorem keepsEdits_of_addsToMigrated_drawsAfterwards : ∃ s,
    run (step Migration.preserving "ann") (begin Migration.annotatedEtude) drawsAfterwards = some s ∧
      s.strokes ≠ [] ∧ Always (step Migration.preserving "ann") (KeepsEdits "ann")
        (begin Migration.annotatedEtude) drawsAfterwards := by
  have hruns : (run (step Migration.preserving "ann") (begin Migration.annotatedEtude)
      drawsAfterwards).any (fun s => !s.strokes.isEmpty) = true := by decide +kernel
  obtain ⟨s, hrun, hs⟩ := (Option.any_eq_true _ _).mp hruns
  exact ⟨s, hrun, by simpa using hs,
    keepsEdits_of_addsToMigrated _ (by decide) (by decide +kernel)⟩

/-! ## A pass that comes back -/

/-- A stroke of `ann`'s on the etude, drawn in the cloud. -/
def drawnBetween : InkStroke := ⟨"s2", "ann", 0, "ink", []⟩

/-- A pass is killed when the etude has its document, `ann` draws on it, and the next pass runs to its
end. -/
def drawsBetweenPasses : List EditedMigrationEvent :=
  let performs : EditedMigrationEvent := .environment (.advance ⟨noon, "", true⟩ .performed)
  .environment .begin :: List.replicate 11 performs ++
    [.environment .kill, .start ⟨noon, .addStroke "etude" drawnBetween⟩, .advance 0,
      .environment .begin] ++ List.replicate 18 performs

/-- The stroke is lost when the pass writes the slice. -/
theorem not_keepsEdits : ¬∀ platform uid start events,
    Always (step platform uid) (KeepsEdits uid) (begin start) events := by
  intro h
  have hruns : ((run (step Migration.preserving "ann") (begin Migration.annotatedEtude)
      drawsBetweenPasses).any fun s => decide (("etude", drawnBetween) ∈ s.strokes) &&
        ((s.cloud.doc (.layers "etude" "ann")).bind strokesFromLayer).all
          fun strokes => decide (drawnBetween ∉ strokes)) = true := by decide +kernel
  obtain ⟨s, hrun, hs⟩ := (Option.any_eq_true _ _).mp hruns
  obtain ⟨hadded, hgone⟩ := Bool.and_eq_true_iff.mp hs
  obtain ⟨data, strokes, hdata, hstrokes, hmem⟩ :=
    ((h _ _ _ drawsBetweenPasses).last hrun).1 _ (of_decide_eq_true hadded)
  rw [hdata, Option.bind_some, hstrokes, Option.all_some] at hgone
  exact of_decide_eq_true hgone hmem

end EditedMigration

end Duet
