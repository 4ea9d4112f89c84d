import Duet.Cloud.AnnotationRepository
import Duet.Cloud.Server
import Duet.Device.State

/-!
# The annotation repository under the rules

Which calls of a participant the rules let through. Strokes go to the user's own layer and notes
are created and tombstoned by their author, which the rules grant. A batch that replaces a slice
also deletes the author's notes, which the rules never grant, and a stroke that is erased may
stand in somebody else's layer.

## Main results

* `ParticipantCall.permitted_iff` — every read and write of an accepted call is permitted exactly
  when the call meets `MeetsRules`.
* `not_annotationsPermitted` — a participant whose own slice cannot be replaced.
-/

namespace Duet

open Lib Program

/-- The user is a participant of the piece, which exists. -/
def Cloud.Participates (cloud : Cloud) (pieceId user : String) : Prop :=
  (isPieceParticipant (some user) (cloud.doc (.pieces pieceId))).Holds

/-- A call of a participant on the annotations of one piece; the slice is the user's own. -/
inductive ParticipantCall where
  | addStroke (stroke : InkStroke)
  | eraseStroke (strokeId : String)
  | addAudioNote (note : AudioNote)
  | deleteAudioNote (noteId : String)
  | snapshotWithTombstones
  | replaceOwnSlice (role : PieceRole) (strokes : List InkStroke) (audioNotes : List AudioNote)
  deriving DecidableEq, Repr

namespace ParticipantCall

/-- The repository's operation for a call. -/
def program (user : String) (now : DateTime) (pieceId : String) :
    ParticipantCall → AdminProgram Unit
  | addStroke stroke => Firestore.addStroke user now pieceId stroke
  | eraseStroke strokeId => Firestore.eraseStroke user now pieceId strokeId
  | addAudioNote note => Firestore.addAudioNote user pieceId note
  | deleteAudioNote noteId => Firestore.deleteAudioNote user now pieceId noteId
  | snapshotWithTombstones => do
    let _ ← Firestore.snapshotWithTombstones pieceId
    done ()
  | replaceOwnSlice role strokes audioNotes =>
    Firestore.replaceAuthorSlice now pieceId user role strokes audioNotes

/-- The client does not refuse the call: it succeeds over a store that grants every request. The
id of a new note is fresh. -/
def Accepted (user : String) (now : DateTime) (pieceId : String) (cloud : Cloud)
    (call : ParticipantCall) : Prop :=
  ((call.program user now pieceId).exec Operation.perform cloud).1 = .ok () ∧
    ∀ note, call = addAudioNote note → cloud.doc (.notes pieceId note.id) = none

/-- A stroke that is erased stands in the user's own layer first; a slice replaces no notes, and
brings new ones of the user's. -/
def MeetsRules (user pieceId : String) (cloud : Cloud) : ParticipantCall → Prop
  | eraseStroke strokeId =>
    (Firestore.firstHolding strokeId (cloud.list (.layersOf pieceId))).map (·.1) =
      some (.layers pieceId user)
  | replaceOwnSlice _ _ audioNotes => cloud.list (.notesBy pieceId user) = [] ∧
      ∀ note ∈ audioNotes, note.authorId = user ∧ cloud.doc (.notes pieceId note.id) = none
  | _ => True

/-- Every read and every write that the call issues is permitted. -/
def Permitted (user : String) (now : DateTime) (pieceId : String) (cloud : Cloud)
    (call : ParticipantCall) : Prop :=
  (call.program user now pieceId).EachCall Operation.perform (Operation.Permitted (some user)) cloud

end ParticipantCall

/-! ## What a participant may do -/

namespace Cloud.Participates

variable {cloud : Cloud} {pieceId user : String} (h : cloud.Participates pieceId user)

include h

theorem get_layer (uid : String) : cloud.permits (some user) (.layers pieceId uid) .get := h

theorem get_note (id : String) : cloud.permits (some user) (.notes pieceId id) .get := h

theorem get_piece : cloud.permits (some user) (.pieces pieceId) .get := h

theorem list_layers : cloud.permitsQuery (some user) (.layersOf pieceId) := h

theorem list_notes : cloud.permitsQuery (some user) (.notesOf pieceId) := h

theorem list_notesBy (authorId : String) :
    cloud.permitsQuery (some user) (.notesBy pieceId authorId) := h

/-- A layer is written by its owner alone. -/
theorem set_layer_iff (uid : String) (fields : Fields) :
    cloud.permitsWrite (some user) (.set (.layers pieceId uid) fields) ↔ uid = user := by
  have hpiece : (isPieceParticipant (some user) (cloud.doc (.pieces pieceId))).Holds := h
  cases hdoc : cloud.doc (.layers pieceId uid) <;>
    simp [permitsWrite, Write.result, Write.path, permits, verdict, layersRule, hdoc, hpiece,
      Verdict.holds_eq, eq_comm]

/-- A new note is its author's. -/
theorem create_note_iff {id : String} (hnew : cloud.doc (.notes pieceId id) = none)
    (fields : Fields) : cloud.permitsWrite (some user) (.set (.notes pieceId id) fields) ↔
      fields.get "authorId" = some (.string user) := by
  have hpiece : (isPieceParticipant (some user) (cloud.doc (.pieces pieceId))).Holds := h
  simp [permitsWrite, Write.result, Write.path, permits, verdict, notesRule, hnew, hpiece,
    Verdict.holds_eq]

end Cloud.Participates

namespace Cloud

variable {cloud : Cloud} {pieceId user : String}

theorem not_permitsWrite_delete_note (id : String) :
    ¬cloud.permitsWrite (some user) (.delete (.notes pieceId id)) := by
  simp [permitsWrite, Write.result, Write.path, permits, verdict, notesRule, deny]

/-- Somebody else's note is not written over. -/
theorem not_permitsWrite_set_note {id : String} {data : Fields}
    (hdoc : cloud.doc (.notes pieceId id) = some data)
    (hother : data.get "authorId" ≠ some (.string user)) (fields : Fields) :
    ¬cloud.permitsWrite (some user) (.set (.notes pieceId id) fields) := by
  simp [permitsWrite, Write.result, Write.path, permits, verdict, notesRule, hdoc,
    Verdict.holds_eq, hother]

/-- The author of a note tombstones it. -/
theorem permitsWrite_tombstone {id : String} {data : Fields}
    (hdoc : cloud.doc (.notes pieceId id) = some data)
    (hauthor : data.get "authorId" = some (.string user)) (value : Value) :
    cloud.permitsWrite (some user) (.update (.notes pieceId id) [("deletedAt", .set value)]) := by
  have honly : (affectsOnly ["deletedAt"] (some data) (some (data.set "deletedAt" value))).Holds := by
    simp only [affectsOnly, Verdict.holds_some, List.all_eq_true]
    intro key _
    by_cases hkey : key = "deletedAt"
    · simp [hkey]
    · simp [hkey, Assoc.get_set_of_ne data hkey]
  simp [permitsWrite, Write.result, Write.path, Write.changed, Change.apply, permits, verdict,
    notesRule, hdoc, Verdict.holds_eq, hauthor, honly]

end Cloud

/-! ## The calls -/

namespace Firestore

/-- A layer is written again whole, unless its document cannot be read. -/
theorem rewriteLayer_cases (now : DateTime) (path : DocPath) (data : Fields)
    (change : List InkStroke → List InkStroke) :
    rewriteLayer now path data change = .abort .typeError ∨
      ∃ fields, rewriteLayer now path data change = .commit [.set path fields] := by
  rw [rewriteLayer]
  split
  · exact .inr ⟨_, rfl⟩
  · exact .inl rfl

/-- The holder that is found is the first document with the stroke. -/
theorem firstHolding_of_strokeHolder {user strokeId : String} {docs : List (DocPath × Fields)}
    {path : DocPath} (h : strokeHolder user strokeId docs = .done path) :
    (firstHolding strokeId docs).map (·.1) = some path ∧ ∃ data, (path, data) ∈ docs := by
  induction docs with
  | nil => simp [strokeHolder] at h
  | cons entry docs ih =>
    obtain ⟨path', data⟩ := entry
    rw [strokeHolder] at h
    cases hstrokes : strokesFromLayer data with
    | none => simp [hstrokes] at h
    | some strokes =>
      simp only [hstrokes, orFail_some, done_bind] at h
      cases hfind : strokes.find? fun s => s.id == strokeId with
      | none =>
        simp only [hfind] at h
        obtain ⟨hfirst, data', hmem⟩ := ih h
        refine ⟨?_, data', List.mem_cons_of_mem _ hmem⟩
        rw [← hfirst]
        simp [firstHolding, hstrokes, hfind]
      | some stroke =>
        simp only [hfind] at h
        split_ifs at h with hauthor
        obtain rfl : path' = path := by simpa using h
        exact ⟨by simp [firstHolding, hstrokes, hfind], data, List.mem_cons_self⟩

/-- The search for the holder issues nothing. -/
theorem strokeHolder_cases (user strokeId : String) (docs : List (DocPath × Fields)) :
    (∃ path, strokeHolder user strokeId docs = .done path) ∨
      ∃ failure, strokeHolder user strokeId docs = .fail failure := by
  induction docs with
  | nil => exact .inr ⟨_, rfl⟩
  | cons entry docs ih =>
    rw [strokeHolder]
    cases hstrokes : strokesFromLayer entry.2 with
    | none => exact .inr ⟨.typeError, rfl⟩
    | some strokes =>
      simp only [orFail_some, done_bind]
      cases strokes.find? fun s => s.id == strokeId with
      | none => exact ih
      | some stroke =>
        dsimp only
        split_ifs
        · exact .inr ⟨_, rfl⟩
        · exact .inl ⟨_, rfl⟩

end Firestore

namespace ParticipantCall

open Firestore

variable {cloud : Cloud} {pieceId user : String} {now : DateTime}

theorem permitted_addStroke (h : cloud.Participates pieceId user) {stroke : InkStroke}
    (hauthor : stroke.authorId = user) :
    (addStroke stroke).Permitted user now pieceId cloud := by
  subst hauthor
  rw [Permitted, program, Firestore.addStroke, if_neg (not_not.mpr rfl), eachCall_transaction]
  refine ⟨h.get_layer _, ?_⟩
  cases hdoc : cloud.doc (.layers pieceId stroke.authorId) with
  | none =>
    refine ⟨h.get_piece, fun write hwrite => ?_⟩
    rw [List.mem_singleton.mp hwrite]
    exact (h.set_layer_iff _ _).mpr rfl
  | some data =>
    simp only
    obtain habort | ⟨fields, hset⟩ := rewriteLayer_cases now (.layers pieceId stroke.authorId) data
      fun strokes => strokes ++ [stroke]
    · rw [habort]
      trivial
    · rw [hset]
      intro write hwrite
      rw [List.mem_singleton.mp hwrite]
      exact (h.set_layer_iff _ _).mpr rfl

/-- A stroke is erased from the layer that holds it, which must be the user's. -/
theorem permitted_eraseStroke_iff (h : cloud.Participates pieceId user) {strokeId : String}
    (hok : ((Firestore.eraseStroke user now pieceId strokeId).exec Operation.perform cloud).1 =
      .ok ()) : (eraseStroke strokeId).Permitted user now pieceId cloud ↔
        (eraseStroke strokeId).MeetsRules user pieceId cloud := by
  rw [Firestore.eraseStroke, exec_bind_of_ok (exec_listDocs _ _)] at hok
  obtain ⟨path, hholder⟩ | ⟨failure, hfails⟩ :=
    strokeHolder_cases user strokeId (cloud.list (.layersOf pieceId))
  · obtain ⟨hfirst, data, hmem⟩ := firstHolding_of_strokeHolder hholder
    obtain ⟨hdoc, hselects⟩ := Cloud.mem_list.mp hmem
    cases path <;> simp only [Query.selects, Bool.false_eq_true, beq_iff_eq] at hselects
    case layers piece uid =>
    subst hselects
    rw [Permitted, program, Firestore.eraseStroke, eachCall_listDocs_bind, hholder, done_bind,
      eachCall_transaction, MeetsRules, hfirst]
    rw [hholder, done_bind, exec_transaction, Transaction.run, hdoc] at hok
    obtain habort | ⟨fields, hset⟩ := rewriteLayer_cases now (.layers piece uid) data
      fun strokes => strokes.filter fun s => s.id != strokeId
    · simp only [habort, Transaction.run, Cloud.settle] at hok
      cases hok
    · have hwrites : cloud.permitsTransaction (some user) (rewriteLayer now (.layers piece uid) data
          fun strokes => strokes.filter fun s => s.id != strokeId) ↔ uid = user := by
        rw [hset]
        simp [Cloud.permitsTransaction, h.set_layer_iff]
      simp only [Operation.Permitted, Cloud.permitsTransaction, hdoc, hwrites, h.list_layers,
        h.get_layer uid, true_and]
      simp
  · rw [hfails] at hok
    cases hok

theorem permitted_addAudioNote (h : cloud.Participates pieceId user) {note : AudioNote}
    (hauthor : note.authorId = user) (hnew : cloud.doc (.notes pieceId note.id) = none) :
    (addAudioNote note).Permitted user now pieceId cloud := by
  rw [Permitted, program, Firestore.addAudioNote, if_neg (not_not.mpr hauthor), eachCall_commit]
  intro write hwrite
  rw [List.mem_singleton.mp hwrite, h.create_note_iff hnew, ← Fields.read_eq_string,
    read_audioNoteToFirestore_authorId, hauthor]

theorem permitted_deleteAudioNote (h : cloud.Participates pieceId user) (noteId : String) :
    (deleteAudioNote noteId).Permitted user now pieceId cloud := by
  rw [Permitted, program, Firestore.deleteAudioNote, eachCall_getDoc_bind]
  refine ⟨h.get_note noteId, ?_⟩
  cases hdoc : cloud.doc (.notes pieceId noteId) with
  | none => trivial
  | some data =>
    dsimp only
    split_ifs with hdead hauthor
    · trivial
    · trivial
    · rw [eachCall_commit]
      intro write hwrite
      rw [List.mem_singleton.mp hwrite]
      exact cloud.permitsWrite_tombstone hdoc (Fields.read_eq_string.mp (not_not.mp hauthor)) _

theorem permitted_snapshotWithTombstones (h : cloud.Participates pieceId user) :
    snapshotWithTombstones.Permitted user now pieceId cloud := by
  rw [Permitted, program, eachCall_bind, Firestore.snapshotWithTombstones,
    eachCall_listDocs_bind, eachCall_listDocs_bind]
  refine ⟨⟨h.list_layers, h.list_notes, ?_⟩, fun _ _ _ => trivial⟩
  rw [eachCall_bind]
  refine ⟨eachCall_orFail _ _, fun layers t _ => ?_⟩
  rw [eachCall_bind]
  exact ⟨eachCall_orFail _ _, fun _ _ _ => trivial⟩

/-- A slice is replaced when no note of the author's has to be deleted and every new one is the
author's and new. -/
theorem permitted_replaceOwnSlice_iff (h : cloud.Participates pieceId user) {role : PieceRole}
    {strokes : List InkStroke} {audioNotes : List AudioNote}
    (hok : ((Firestore.replaceAuthorSlice now pieceId user role strokes audioNotes).exec
      Operation.perform cloud).1 = .ok ()) :
    (replaceOwnSlice role strokes audioNotes).Permitted user now pieceId cloud ↔
      (replaceOwnSlice role strokes audioNotes).MeetsRules user pieceId cloud := by
  rw [Firestore.replaceAuthorSlice, exec_bind_of_ok (exec_getDoc _ _),
    exec_bind_of_ok (exec_listDocs _ _)] at hok
  rw [Permitted, program, Firestore.replaceAuthorSlice, eachCall_getDoc_bind, eachCall_listDocs_bind,
    MeetsRules]
  cases hrev : nextRev (cloud.doc (.layers pieceId user)) with
  | none =>
    rw [hrev] at hok
    cases hok
  | some rev =>
    rw [orFail_some, done_bind, eachCall_commit]
    simp only [Operation.Permitted, List.mem_cons, List.mem_append, List.mem_map]
    constructor
    · intro ⟨_, _, hwrites⟩
      have hnone : cloud.list (.notesBy pieceId user) = [] := by
        refine List.eq_nil_iff_forall_not_mem.mpr fun ⟨path, data⟩ hentry => ?_
        obtain ⟨-, hselects⟩ := Cloud.mem_list.mp hentry
        cases path <;> simp only [Query.selects, Bool.false_eq_true] at hselects
        exact Cloud.not_permitsWrite_delete_note _
          (hwrites _ (.inr (.inl ⟨_, hentry, rfl⟩)))
      refine ⟨hnone, fun note hnote => ?_⟩
      have hset := hwrites _ (.inr (.inr ⟨note, hnote, rfl⟩))
      cases hdoc : cloud.doc (.notes pieceId note.id) with
      | none =>
        rw [h.create_note_iff hdoc, ← Fields.read_eq_string,
          read_audioNoteToFirestore_authorId, Value.string.injEq] at hset
        exact ⟨hset, rfl⟩
      | some data =>
        refine absurd hset (Cloud.not_permitsWrite_set_note hdoc (fun hauthor => ?_) _)
        have hentry : (DocPath.notes pieceId note.id, data) ∈ cloud.list (.notesBy pieceId user) :=
          Cloud.mem_list.mpr ⟨hdoc, by simp [Query.selects, Fields.read_eq_string.mpr hauthor]⟩
        simp [hnone] at hentry
    · intro ⟨hnone, hnotes⟩
      refine ⟨h.get_layer user, h.list_notesBy user, fun write hwrite => ?_⟩
      obtain rfl | ⟨entry, hentry, rfl⟩ | ⟨note, hnote, rfl⟩ := hwrite
      · exact (h.set_layer_iff _ _).mpr rfl
      · simp [hnone] at hentry
      · obtain ⟨hauthor, hnew⟩ := hnotes note hnote
        rw [h.create_note_iff hnew, ← Fields.read_eq_string, read_audioNoteToFirestore_authorId,
          hauthor]

/-- An accepted call of a participant is permitted exactly when it meets `MeetsRules`. -/
theorem permitted_iff {call : ParticipantCall} (h : cloud.Participates pieceId user)
    (haccepted : call.Accepted user now pieceId cloud) :
    call.Permitted user now pieceId cloud ↔ call.MeetsRules user pieceId cloud := by
  obtain ⟨hok, hfresh⟩ := haccepted
  cases call with
  | addStroke stroke =>
    refine iff_of_true (permitted_addStroke h ?_) trivial
    by_contra hother
    rw [program, Firestore.addStroke, if_pos hother] at hok
    cases hok
  | eraseStroke strokeId => exact permitted_eraseStroke_iff h hok
  | addAudioNote note =>
    refine iff_of_true (permitted_addAudioNote h ?_ (hfresh note rfl)) trivial
    by_contra hother
    rw [program, Firestore.addAudioNote, if_pos hother] at hok
    cases hok
  | deleteAudioNote noteId => exact iff_of_true (permitted_deleteAudioNote h noteId) trivial
  | snapshotWithTombstones => exact iff_of_true (permitted_snapshotWithTombstones h) trivial
  | replaceOwnSlice role strokes audioNotes => exact permitted_replaceOwnSlice_iff h hok

end ParticipantCall

/-! ## A slice that brings a note back -/

/-- Ann's piece in the cloud. -/
def annsEtude : Piece := ⟨"p", "Etude", "c0ffee", "", "ann", none, [], noon, noon⟩

/-- A note of ann's. -/
def annsRemark : AudioNote :=
  ⟨"n1", "ann", "a1", 0, 1000, ⟨0, 0, 0, 1, 1⟩, noon, none⟩

/-- Ann creates a piece and adds a note to it. -/
def annsWrites : List ServerEvent :=
  [.write "ann" (.set (.pieces "p") (pieceToFirestore annsEtude)),
    .write "ann" (.set (.notes "p" "n1") (audioNoteToFirestore annsRemark))]

/-- The documents that ann's writes leave. -/
def annsCloud : Cloud :=
  (Cloud.empty.store (.pieces "p") (some (pieceToFirestore annsEtude))).store (.notes "p" "n1")
    (some (audioNoteToFirestore annsRemark))

theorem annsWrites_reach (emailKey : String → String) :
    run (Server.step emailKey) .initial annsWrites = some ⟨annsCloud, [], []⟩ := by
  have hpiece : Server.step emailKey .initial (.write "ann" (.set (.pieces "p")
      (pieceToFirestore annsEtude))) = some ⟨Cloud.empty.store (.pieces "p")
        (some (pieceToFirestore annsEtude)), [], []⟩ :=
    Server.write_step.mpr ⟨by decide +kernel, _, rfl, rfl⟩
  have hnote : Server.step emailKey ⟨Cloud.empty.store (.pieces "p")
      (some (pieceToFirestore annsEtude)), [], []⟩ (.write "ann" (.set (.notes "p" "n1")
        (audioNoteToFirestore annsRemark))) = some ⟨annsCloud, [], []⟩ :=
    Server.write_step.mpr ⟨by decide +kernel, _, rfl, rfl⟩
  exact run_cons_eq_some.mpr ⟨_, hpiece, run_cons_eq_some.mpr ⟨_, hnote, rfl⟩⟩

/-- Ann, who has a note on her piece, may draw a stroke. -/
theorem ParticipantCall.permitted_iff_annsStroke :
    (ParticipantCall.addStroke ⟨"s1", "ann", 0, "ink", []⟩).Permitted "ann" noon "p" annsCloud ↔
      (ParticipantCall.addStroke ⟨"s1", "ann", 0, "ink", []⟩).MeetsRules "ann" "p" annsCloud := by
  have hpart : annsCloud.Participates "p" "ann" := by
    change Verdict.Holds _
    decide +kernel
  exact ParticipantCall.permitted_iff hpart ⟨by decide +kernel, fun _ hcall => by cases hcall⟩

/-- Ann's own slice, replaced by the same note: the batch deletes the note, which is denied. -/
theorem not_annotationsPermitted :
    ¬∀ s, Server.Reachable id s → ∀ user pieceId now (call : ParticipantCall),
      s.cloud.Participates pieceId user → call.Accepted user now pieceId s.cloud →
        call.Permitted user now pieceId s.cloud := by
  intro hall
  have hpart : annsCloud.Participates "p" "ann" := by
    change Verdict.Holds _
    decide +kernel
  have hok : (((ParticipantCall.replaceOwnSlice .owner [] [annsRemark]).program "ann" noon
      "p").exec Operation.perform annsCloud).1 = .ok () := by
    decide +kernel
  have hpermitted := hall _ ⟨_, annsWrites_reach id⟩ "ann" "p" noon
    (.replaceOwnSlice .owner [] [annsRemark]) hpart ⟨hok, fun _ hcall => by cases hcall⟩
  have hnone := ((ParticipantCall.permitted_replaceOwnSlice_iff hpart hok).mp hpermitted).1
  exact absurd hnone (by decide +kernel)

end Duet
