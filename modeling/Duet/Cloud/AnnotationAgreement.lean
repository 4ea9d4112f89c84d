import Duet.Cloud.AnnotationMirror
import Duet.Lib.Transition

/-!
# What the two annotation repositories show

Sides that are related show the same annotations, so the two repositories cannot be told apart by
any sequence of calls.

## Main results

* `Mirrors.watch`, `Mirrors.snapshotWithTombstones` — related sides show the same annotations.
* `repositories_agree` — over any sequence of calls.
-/

namespace Duet

open Lib

/-- The layer without the time of its writing. -/
def InkLayer.unstamped (layer : InkLayer) : InkLayer := { layer with updatedAt := none }

/-- The same annotations up to the order of layers and notes and the times of writing. -/
structure PieceAnnotations.SameUpToOrder (a b : PieceAnnotations) : Prop where
  pieceId : a.pieceId = b.pieceId
  layers : (a.layers.map InkLayer.unstamped).Perm (b.layers.map InkLayer.unstamped)
  audioNotes : a.audioNotes.Perm b.audioNotes

namespace Mirrors

open Firestore

variable {pieceId ownerId : String} {a : PieceAnnotations} {cloud : Cloud}

/-! ## The views -/

/-- The layer documents of the piece are those of its layers, in some order. -/
theorem layers_perm (h : Mirrors pieceId ownerId a cloud) :
    ∃ stamp : InkLayer → Int × DateTime, (cloud.list (.layersOf pieceId)).Perm
      (a.layers.map fun l => (.layers pieceId l.ownerId,
        layerToFirestore l (stamp l).1 (stamp l).2)) := by
  have hdocs : ∀ l, ∃ stamp : Int × DateTime, l ∈ a.layers →
      cloud.doc (.layers pieceId l.ownerId) = some (layerToFirestore l stamp.1 stamp.2) := by
    intro l
    by_cases hl : l ∈ a.layers
    · obtain ⟨rev, updatedAt, hdoc⟩ := h.layerDoc l hl
      exact ⟨(rev, updatedAt), fun _ => hdoc⟩
    · exact ⟨(1, noon), fun hmem => absurd hmem hl⟩
  choose stamp hstamp using hdocs
  refine ⟨stamp, (List.perm_ext_iff_of_nodup cloud.nodup_list ?_).mpr fun entry => ?_⟩
  · refine List.Nodup.of_map Prod.fst ?_
    rw [List.map_map]
    have hpaths : ((a.layers.map (·.ownerId)).map (DocPath.layers pieceId)).Nodup :=
      h.tidy.oneLayerEach.map fun _ _ heq => by simpa using heq
    rwa [List.map_map] at hpaths
  · rw [h.mem_layers, List.mem_map]
    constructor
    · intro ⟨l, hl, rev, updatedAt, hdoc, heq⟩
      refine ⟨l, hl, ?_⟩
      rw [heq, Option.some.inj (hdoc.symm.trans (hstamp l hl))]
    · intro ⟨l, hl, heq⟩
      exact ⟨l, hl, _, _, hstamp l hl, heq.symm⟩

/-- The note documents of the piece are those of its notes, in some order. -/
theorem notes_perm (h : Mirrors pieceId ownerId a cloud) :
    (cloud.list (.notesOf pieceId)).Perm
      (a.audioNotes.map fun n => (.notes pieceId n.id, audioNoteToFirestore n)) := by
  refine (List.perm_ext_iff_of_nodup cloud.nodup_list ?_).mpr fun entry => ?_
  · refine List.Nodup.of_map Prod.fst ?_
    rw [List.map_map]
    have hpaths : ((a.audioNotes.map (·.id)).map (DocPath.notes pieceId)).Nodup :=
      h.tidy.noteIds.map fun _ _ heq => by simpa using heq
    rwa [List.map_map] at hpaths
  · rw [h.mem_notes, List.mem_map]
    exact exists_congr fun n => and_congr_right fun _ => eq_comm

/-- The layers and notes that are read from the documents. -/
theorem read_docs (h : Mirrors pieceId ownerId a cloud) :
    ∃ (stamp : InkLayer → DateTime) (layers : List InkLayer) (audioNotes liveNotes : List AudioNote),
      layerDocs (cloud.list (.layersOf pieceId)) = some layers ∧
      layers.Perm (a.layers.map fun l => { l with updatedAt := some (stamp l) }) ∧
      noteDocs (cloud.list (.notesOf pieceId)) = some audioNotes ∧
      audioNotes.Perm a.audioNotes ∧
      noteDocs ((cloud.list (.notesOf pieceId)).filter fun entry =>
        !isAudioNoteTombstoned entry.2) = some liveNotes ∧
      liveNotes.Perm (a.audioNotes.filter fun n => !n.isTombstoned) := by
  obtain ⟨stamp, hlayers⟩ := h.layers_perm
  have hlayerDocs : layerDocs (a.layers.map fun l => (.layers pieceId l.ownerId,
      layerToFirestore l (stamp l).1 (stamp l).2)) =
        some (a.layers.map fun l => { l with updatedAt := some (stamp l).2 }) :=
    mapM_map_eq_some (fun l => by simp [DocPath.id]) a.layers
  have hnoteDocs : ∀ notes : List AudioNote, noteDocs (notes.map fun n =>
      (.notes pieceId n.id, audioNoteToFirestore n)) = some notes := by
    intro notes
    have hread : noteDocs (notes.map fun n => (.notes pieceId n.id, audioNoteToFirestore n)) =
        some (notes.map id) := mapM_map_eq_some (fun n => by simp) notes
    rwa [List.map_id] at hread
  have hlive : ((cloud.list (.notesOf pieceId)).filter fun entry =>
      !isAudioNoteTombstoned entry.2).Perm ((a.audioNotes.filter fun n => !n.isTombstoned).map
        fun n => (.notes pieceId n.id, audioNoteToFirestore n)) := by
    refine (h.notes_perm.filter _).trans (.of_eq ?_)
    rw [List.filter_map]
    congr 2
    funext n
    simp
  obtain ⟨layers, hread, hperm⟩ := exists_mapM_of_perm hlayers hlayerDocs
  obtain ⟨notes, hnotes, hnotesPerm⟩ := exists_mapM_of_perm h.notes_perm (hnoteDocs _)
  obtain ⟨live, hliveRead, hlivePerm⟩ := exists_mapM_of_perm hlive (hnoteDocs _)
  exact ⟨fun l => (stamp l).2, layers, notes, live, hread, hperm, hnotes, hnotesPerm, hliveRead,
    hlivePerm⟩

/-- Related sides take the same snapshot. -/
theorem snapshotWithTombstones (h : Mirrors pieceId ownerId a cloud) :
    ∃ shown, (Firestore.snapshotWithTombstones pieceId).exec Operation.perform cloud =
      (.ok shown, cloud) ∧ a.SameUpToOrder shown := by
  obtain ⟨stamp, layers, audioNotes, -, hlayers, hperm, hnotes, hnotesPerm, -, -⟩ := h.read_docs
  refine ⟨⟨pieceId, layers, audioNotes⟩, ?_, h.tidy.id, ?_, hnotesPerm.symm⟩
  · rw [Firestore.snapshotWithTombstones, Program.exec_bind_of_ok (exec_listDocs _ _),
      Program.exec_bind_of_ok (exec_listDocs _ _), hlayers, hnotes]
    rfl
  · refine ((hperm.map InkLayer.unstamped).trans (.of_eq ?_)).symm
    rw [List.map_map]
    rfl

/-- Related sides emit the same annotations. -/
theorem watch (h : Mirrors pieceId ownerId a cloud) :
    ∃ shown, (Firestore.watch pieceId).exec Operation.perform cloud = (.ok shown, cloud) ∧
      a.withoutTombstones.SameUpToOrder shown := by
  obtain ⟨stamp, layers, -, liveNotes, hlayers, hperm, -, -, hlive, hlivePerm⟩ := h.read_docs
  obtain ⟨fields, hpiece, hfield⟩ := h.piece
  have howner : (fields.read "ownerId").orNull Value.asString = some (some ownerId) := by
    rw [hfield]
    rfl
  refine ⟨⟨pieceId, layers.map (emittedLayer (some ownerId)), liveNotes⟩, ?_, h.tidy.id, ?_,
    hlivePerm.symm⟩
  · rw [Firestore.watch, Program.exec_bind_of_ok (exec_listDocs _ _),
      Program.exec_bind_of_ok (exec_listDocs _ _), Program.exec_bind_of_ok (exec_getDoc _ _),
      hlayers, hlive, hpiece]
    simp only [howner, Program.orFail_some, Program.done_bind]
    rfl
  · refine (((hperm.map (emittedLayer (some ownerId))).map InkLayer.unstamped).trans
      (.of_eq ?_)).symm
    rw [List.map_map, List.map_map]
    refine List.map_congr_left fun l hl => ?_
    have hrole := h.tidy.role l hl
    simp only [Function.comp_apply, emittedLayer, InkLayer.unstamped, hrole, roleUnder]

end Mirrors

/-! ## Sequences of calls -/

/-- A call that both repositories get, with the user signed in and the time on the clock. -/
structure SharedCall where
  user : String
  now : DateTime
  call : AnnotationCall
  deriving DecidableEq, Repr

/-- The id that `_guarded` is given. -/
def AnnotationCall.resourceId (pieceId : String) : AnnotationCall → String
  | .addStroke stroke => stroke.id
  | .eraseStroke strokeId => strokeId
  | .addAudioNote note => note.id
  | .deleteAudioNote noteId => noteId
  | .replaceAuthorSlice .. | .removeAuthorSlice _ | .clearPiece => pieceId

namespace SharedCall

variable (pieceId : String) (c : SharedCall)

/-- The call on `LocalAnnotationRepository`. -/
def onDevice (d : Device) : Except Failure Unit × Device :=
  (c.call.perform (.quiet c.user c.now) pieceId).exec d

/-- The call on `FirestoreAnnotationRepository`. -/
def inCloud (cloud : Cloud) : Except CloudFailure Unit × Cloud :=
  let (outcome, cloud') := (c.call.performCloud c.user c.now pieceId).exec Operation.perform cloud
  (Firestore.guarded (c.call.resourceId pieceId) outcome, cloud')

/-- The call on both. -/
def onBoth (s : Device × Cloud) : Device × Cloud :=
  ((c.onDevice pieceId s.1).2, (c.inCloud pieceId s.2).2)

end SharedCall

/-- The two repositories show the same annotations of the piece, in `watch` and in
`snapshotWithTombstones`. -/
structure ShowTheSame (pieceId : String) (s : Device × Cloud) : Prop where
  watch : ∃ a b, ((watchFirst pieceId).exec s.1).1 = .ok a ∧
    ((Firestore.watch pieceId).exec Operation.perform s.2).1 = .ok b ∧ a.SameUpToOrder b
  snapshot : ∃ a b, ((snapshotWithTombstones pieceId).exec s.1).1 = .ok a ∧
    ((Firestore.snapshotWithTombstones pieceId).exec Operation.perform s.2).1 = .ok b ∧
      a.SameUpToOrder b

/-- Related sides show the same. -/
theorem Mirrors.showTheSame {pieceId ownerId : String} {s : Device × Cloud}
    (h : Mirrors pieceId ownerId (s.1.annotationsFor pieceId) s.2) : ShowTheSame pieceId s := by
  constructor
  · obtain ⟨shown, hshown, hsame⟩ := h.watch
    exact ⟨_, shown, rfl, by rw [hshown], hsame⟩
  · obtain ⟨shown, hshown, hsame⟩ := h.snapshotWithTombstones
    exact ⟨_, shown, rfl, by rw [hshown], hsame⟩

/-- Both sides know the piece as the owner's and hold the same annotations. -/
structure InStep (pieceId ownerId : String) (s : Device × Cloud) : Prop where
  piece : ∃ piece, s.1.findPiece pieceId = some piece ∧ piece.ownerId = ownerId
  mirrors : Mirrors pieceId ownerId (s.1.annotationsFor pieceId) s.2

namespace InStep

variable {pieceId ownerId : String} {s : Device × Cloud} {c : SharedCall}

theorem showTheSame (h : InStep pieceId ownerId s) : ShowTheSame pieceId s := h.mirrors.showTheSame

theorem roleFor (h : InStep pieceId ownerId s) (user : String) :
    s.1.roleFor pieceId user = roleUnder ownerId user := by
  obtain ⟨piece, hpiece, rfl⟩ := h.piece
  simp only [Device.roleFor, hpiece, roleUnder, eq_comm]

/-- A call ends the same way on both sides and keeps them in step. -/
theorem call (h : InStep pieceId ownerId s)
    (hfresh : c.call.FreshIds (s.1.annotationsFor pieceId)) (hformed : c.call.WellFormed ownerId) :
    SameOutcome (c.onDevice pieceId s.1).1 (c.inCloud pieceId s.2).1 ∧
      InStep pieceId ownerId (c.onBoth pieceId s) := by
  have hdevice := exec_perform (.quiet c.user c.now) pieceId c.call s.1 rfl
  have hcloud := h.mirrors.perform c.user c.now hfresh hformed
  have hpieces : ∀ d : Device, d.pieces = s.1.pieces →
      ∃ piece, d.findPiece pieceId = some piece ∧ piece.ownerId = ownerId := by
    intro d hd
    rw [Device.findPiece, hd]
    exact h.piece
  simp only [Env.quiet, h.roleFor] at hdevice
  simp only [SharedCall.onBoth, SharedCall.onDevice, SharedCall.inCloud, Env.quiet]
  cases hwritten : c.call.written pieceId c.user c.now (roleUnder ownerId c.user)
    (s.1.annotationsFor pieceId) with
  | error e =>
    simp only [hwritten] at hdevice hcloud
    obtain ⟨d', hexec, hd, -, hkept⟩ := hdevice
    obtain ⟨e', hfails, hsame⟩ := hcloud
    rw [hexec, hfails]
    refine ⟨?_, hpieces d' hd, ?_⟩
    · cases e' <;> cases e <;> first | exact hsame | exact hsame.elim
    · rw [hkept]
      exact h.mirrors
  | ok b =>
    simp only [hwritten] at hdevice hcloud
    obtain ⟨cloud', hexec, hmirrors⟩ := hcloud
    rw [hdevice, hexec]
    refine ⟨trivial, hpieces _ (Device.pieces_put _ _ _), ?_⟩
    rw [Device.annotationsFor_put]
    exact hmirrors

/-- Before the first call: the piece on both sides, without annotations. -/
theorem start {d : Device} {cloud : Cloud} {piece : Piece} {fields : Fields}
    (hpiece : d.findPiece pieceId = some piece)
    (hnone : d.annotationsFor pieceId = .empty pieceId)
    (hdoc : cloud.doc (.pieces pieceId) = some fields)
    (howner : fields.read "ownerId" = .string piece.ownerId)
    (hlayers : ∀ uid, cloud.doc (.layers pieceId uid) = none)
    (hnotes : ∀ id, cloud.doc (.notes pieceId id) = none) :
    InStep pieceId piece.ownerId (d, cloud) where
  piece := ⟨piece, hpiece, rfl⟩
  mirrors := by
    rw [hnone]
    exact ⟨.empty pieceId piece.ownerId, by simp [PieceAnnotations.empty], fun uid _ => hlayers uid,
      by simp [PieceAnnotations.empty], fun id _ => hnotes id, fields, hdoc, howner⟩

end InStep

/-- Over any sequence of calls on a piece with a fixed owner, both repositories end every call the
same way and show the same annotations after it, as long as no id is reused and slices are of
their author. -/
theorem repositories_agree {pieceId ownerId : String} {s : Device × Cloud}
    {calls : List SharedCall} (hs : InStep pieceId ownerId s)
    (hcalls : EachStep (fun s c => some (SharedCall.onBoth pieceId c s))
      (fun s c => c.call.FreshIds (s.1.annotationsFor pieceId) ∧ c.call.WellFormed ownerId)
      s calls) :
    EachStep (fun s c => some (SharedCall.onBoth pieceId c s))
        (fun s c => SameOutcome (c.onDevice pieceId s.1).1 (c.inCloud pieceId s.2).1) s calls ∧
      Always (fun s c => some (SharedCall.onBoth pieceId c s)) (ShowTheSame pieceId) s calls := by
  have hstep : ∀ s c, InStep pieceId ownerId s →
      (c.call.FreshIds (s.1.annotationsFor pieceId) ∧ c.call.WellFormed ownerId) →
        SameOutcome (c.onDevice pieceId s.1).1 (c.inCloud pieceId s.2).1 ∧
          ∀ t, some (SharedCall.onBoth pieceId c s) = some t → InStep pieceId ownerId t := by
    intro s c hs hc
    obtain ⟨hsame, hnext⟩ := hs.call hc.1 hc.2
    exact ⟨hsame, fun t ht => Option.some.inj ht ▸ hnext⟩
  exact ⟨EachStep.of_invariant hstep hs hcalls, Always.of_invariant
    (fun s c t hs hc ht => (hstep s c hs hc).2 t ht) (fun _ h => h.showTheSame) hs hcalls⟩

/-- A device and a cloud with one piece of ann's, without annotations. -/
def annsSonata : Piece := ⟨"p", "Sonata", "c0ffee", "/documents/pieces/p.pdf", "ann", none, [],
  noon, noon⟩

/-- A stroke of carol's. -/
def carolsSlur : InkStroke := ⟨"s1", "carol", 0, "red", [⟨1 / 2, 1 / 2⟩]⟩

/-- Carol draws, ann cannot erase what carol has drawn, and carol leaves. -/
theorem repositories_agree_carol :
    EachStep (fun s c => some (SharedCall.onBoth "p" c s))
        (fun s c => SameOutcome (c.onDevice "p" s.1).1 (c.inCloud "p" s.2).1)
        ({ Device.fresh with pieces := [annsSonata] },
          Cloud.empty.store (.pieces "p") (some (pieceToFirestore annsSonata)))
        [⟨"carol", noon, .addStroke carolsSlur⟩, ⟨"ann", noon, .eraseStroke "s1"⟩,
          ⟨"ann", noon, .removeAuthorSlice "carol"⟩] ∧
      Always (fun s c => some (SharedCall.onBoth "p" c s)) (ShowTheSame "p")
        ({ Device.fresh with pieces := [annsSonata] },
          Cloud.empty.store (.pieces "p") (some (pieceToFirestore annsSonata)))
        [⟨"carol", noon, .addStroke carolsSlur⟩, ⟨"ann", noon, .eraseStroke "s1"⟩,
          ⟨"ann", noon, .removeAuthorSlice "carol"⟩] := by
  have hstart : InStep "p" "ann" ({ Device.fresh with pieces := [annsSonata] },
      Cloud.empty.store (.pieces "p") (some (pieceToFirestore annsSonata))) :=
    InStep.start (show Device.findPiece _ "p" = some annsSonata from rfl) rfl
      (Cloud.doc_store_self _ _ _) rfl
      (fun uid => Cloud.doc_store_of_ne _ (by simp) _)
      (fun id => Cloud.doc_store_of_ne _ (by simp) _)
  refine repositories_agree hstart ⟨⟨?_, trivial⟩, fun s _ => ⟨⟨trivial, trivial⟩, fun t _ =>
    ⟨⟨trivial, trivial⟩, fun _ _ => trivial⟩⟩⟩
  simp [AnnotationCall.FreshIds, Device.annotationsFor, Device.fresh, PieceAnnotations.empty]

end Duet
