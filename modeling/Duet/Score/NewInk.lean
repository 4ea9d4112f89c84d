import Duet.Cloud.AnnotationRepository
import Duet.Cloud.Unread
import Duet.Score.Layers

/-!
# New ink

`ScoreBloc` remembers when the viewer last opened the piece, and marks the layers of the others that
have been written since. The time of a layer document's last write survives `layerFromFirestore` and
`_projectLayers`. `watch` emits its layers without it.

## Main results

* `hasNewInk_iff_changedSince` — what is read from the layer documents is marked as it should be.
* `ScoreBloc.marksNewInk_iff` — what `watch` emits is marked as it should be only when nothing is new.
-/

namespace Duet

open Lib Program Firestore

/-! ## The bloc -/

/-- What `ScoreBloc` keeps of an open piece. -/
structure ScoreBloc where
  piece : Option Piece
  state : ScoreState
  layers : List ParticipantLayer
  notes : List AudioNote
  deriving DecidableEq, Repr

/-- The time of the last write of a participant's layer document. -/
def Cloud.layerUpdatedAt (cloud : Cloud) (pieceId owner : String) : Option DateTime :=
  (cloud.doc (.layers pieceId owner)).bind fun data => asDate (data.read "updatedAt")

/-- The participant's layer document has been written after the watermark. -/
def Cloud.ChangedSince (cloud : Cloud) (pieceId owner : String) (watermark : DateTime) : Prop :=
  ∃ updatedAt, cloud.layerUpdatedAt pieceId owner = some updatedAt ∧
    watermark.micros < updatedAt.micros

namespace ScoreBloc

/-- `_onOpened`, once the piece is ready; its base PDF has been resolved to a path. -/
def onOpened (bloc : ScoreBloc) (cloud : Cloud) (pieceId basePdfPath : String) :
    Option ScoreBloc := do
  let data ← cloud.doc (.pieces pieceId)
  let piece ← pieceFromFirestore pieceId data basePdfPath
  let reads := watchReads cloud bloc.state.currentUserId
  pure { bloc with
    piece := some piece
    -- `copyWith` keeps the watermark of a piece opened before where there is none
    state := { bloc.state with
      lastOpenedAt := (reads.get piece.id).or bloc.state.lastOpenedAt } }

/-- `_onAnnotationsUpdated`. -/
def onAnnotationsUpdated (bloc : ScoreBloc) (annotations : PieceAnnotations) : ScoreBloc :=
  match bloc.piece with
  | none => bloc
  | some piece => { bloc with
      layers := projectLayers piece annotations bloc.state
      notes := annotations.audioNotes }

/-- The layers are marked that others have written since the watermark, and no more. -/
def MarksNewInk (bloc : ScoreBloc) (cloud : Cloud) (pieceId : String) : Prop :=
  ∀ watermark, bloc.state.lastOpenedAt = some watermark → ∀ layer ∈ bloc.layers,
    (layer.hasNewInk = true ↔ layer.ownerId ≠ bloc.state.currentUserId ∧
      cloud.ChangedSince pieceId layer.ownerId watermark)

end ScoreBloc

/-! ## Reading the time of a write -/

section

variable {cloud : Cloud} {pieceId owner : String} {layers : List InkLayer}

/-- The layer document of a participant, among those of the piece. -/
theorem find?_layersOf : ((cloud.list (.layersOf pieceId)).find? fun entry =>
    entry.1.id == owner) =
      (cloud.doc (.layers pieceId owner)).map fun data => (.layers pieceId owner, data) := by
  have hpath : ∀ entry ∈ cloud.list (.layersOf pieceId), entry.1.id = owner →
      entry.1 = .layers pieceId owner := by
    rintro ⟨path, data⟩ hentry hid
    obtain ⟨-, hselects⟩ := Cloud.mem_list.mp hentry
    cases path with
    | layers pieceId' uid =>
      obtain rfl : pieceId' = pieceId := by simpa [Query.selects] using hselects
      exact congrArg (DocPath.layers pieceId') hid
    | _ => simp [Query.selects] at hselects
  cases hdoc : cloud.doc (.layers pieceId owner) with
  | none =>
    refine List.find?_eq_none.mpr fun entry hentry hid => ?_
    have hat := hpath entry hentry (by simpa using hid)
    have hstored := (Cloud.mem_list.mp hentry).1
    rw [hat, hdoc] at hstored
    cases hstored
  | some data =>
    have hmem : (.layers pieceId owner, data) ∈ cloud.list (.layersOf pieceId) :=
      Cloud.mem_list.mpr ⟨hdoc, by simp [Query.selects]⟩
    cases hfind : (cloud.list (.layersOf pieceId)).find? fun entry => entry.1.id == owner with
    | none => exact absurd (beq_self_eq_true owner) (List.find?_eq_none.mp hfind _ hmem)
    | some entry =>
      have hat := hpath entry (List.mem_of_find?_eq_some hfind)
        (by simpa using List.find?_some hfind)
      have hstored := (Cloud.mem_list.mp (List.mem_of_find?_eq_some hfind)).1
      rw [hat, hdoc] at hstored
      rw [Option.map_some, Option.some.inj hstored, ← hat]

/-- A layer is read with the id of its document and the time of its last write. -/
theorem of_layerFromFirestore {uid : String} {data : Fields} {layer : InkLayer}
    (h : layerFromFirestore uid data = some layer) :
    layer.ownerId = uid ∧ layer.updatedAt = asDate (data.read "updatedAt") := by
  simp only [layerFromFirestore, Option.bind_eq_bind, Option.bind_eq_some_iff] at h
  obtain ⟨_, -, _, -, updatedAt, hupdated, hlayer⟩ := h
  obtain rfl := Option.some.inj hlayer
  exact ⟨rfl, (Value.eq_of_orNull rfl hupdated).symm⟩

/-- The layer that is read for a participant is the one of their document. -/
theorem find?_layerDocs (h : layerDocs (cloud.list (.layersOf pieceId)) = some layers) :
    (cloud.doc (.layers pieceId owner)).map (layerFromFirestore owner) =
      (layers.find? fun layer => layer.ownerId == owner).map some := by
  rw [← find?_of_mapM (p := fun entry => entry.1.id == owner)
    (fun entry layer hread => by rw [(of_layerFromFirestore hread).1]) h, find?_layersOf,
    Option.map_map]
  rfl

/-- Another participant's layer is marked when its document has been written since, where the
layers are those that are read from the documents. -/
theorem hasNewInk_iff_changedSince {annotations : PieceAnnotations} {watermark : DateTime}
    (h : layerDocs (cloud.list (.layersOf pieceId)) = some annotations.layers) :
    hasNewInk annotations owner false (some watermark) = true ↔
      cloud.ChangedSince pieceId owner watermark := by
  have hfind : (cloud.doc (.layers pieceId owner)).map (layerFromFirestore owner) =
      (annotations.layers.find? fun layer => layer.ownerId == owner).map some := find?_layerDocs h
  rw [Cloud.ChangedSince, Cloud.layerUpdatedAt]
  cases hdoc : cloud.doc (.layers pieceId owner) with
  | none =>
    rw [hdoc, Option.map_none] at hfind
    simp [hasNewInk, Option.map_eq_none_iff.mp hfind.symm]
  | some data =>
    rw [hdoc, Option.map_some] at hfind
    obtain ⟨layer, hlayer, hread⟩ := Option.map_eq_some_iff.mp hfind.symm
    simp [hasNewInk, hlayer, (of_layerFromFirestore hread.symm).2, Option.any_eq_true]

/-! ## The emission -/

/-- Every layer that `watch` emits has lost the time of its last write. -/
theorem updatedAt_of_watch {cloud' : Cloud} {shown : PieceAnnotations}
    (h : (watch pieceId).exec Operation.perform cloud = (.ok shown, cloud')) :
    ∀ layer ∈ shown.layers, layer.updatedAt = none := by
  rw [watch, exec_bind_of_ok (exec_listDocs _ _), exec_bind_of_ok (exec_listDocs _ _),
    exec_bind_of_ok (exec_getDoc _ _)] at h
  obtain ⟨layers, -, h⟩ := exec_orFail_bind h
  obtain ⟨audioNotes, -, h⟩ := exec_orFail_bind h
  obtain ⟨ownerId, -, h⟩ := exec_orFail_bind h
  obtain rfl := Except.ok.inj (Prod.mk.inj h).1
  intro layer hlayer
  obtain ⟨stored, -, rfl⟩ := List.mem_map.mp hlayer
  rfl

/-- Without the times of the writes no layer is marked. -/
theorem hasNewInk_eq_false {annotations : PieceAnnotations} {isOwn : Bool}
    {lastOpenedAt : Option DateTime} (h : ∀ layer ∈ annotations.layers, layer.updatedAt = none) :
    hasNewInk annotations owner isOwn lastOpenedAt = false := by
  cases hfind : annotations.layers.find? fun layer => layer.ownerId == owner with
  | none => cases lastOpenedAt <;> simp [hasNewInk, hfind]
  | some layer =>
    have hlost := h layer (List.mem_of_find?_eq_some hfind)
    cases lastOpenedAt <;> simp [hasNewInk, hfind, hlost]

end

namespace ScoreBloc

variable {bloc : ScoreBloc} {cloud cloud' : Cloud} {piece : Piece}
  {shown : PieceAnnotations}

/-- A property of the owners of the projected layers is one of the participants. -/
theorem forall_mem_layers_iff (hpiece : bloc.piece = some piece) {p : String → Prop} :
    (∀ layer ∈ (bloc.onAnnotationsUpdated shown).layers, p layer.ownerId) ↔
      ∀ owner ∈ piece.participantIds, p owner := by
  rw [onAnnotationsUpdated, hpiece, ← map_ownerId_projectLayers, List.forall_mem_map]

/-- No layer is marked after an emission of `watch`. -/
theorem hasNewInk_onAnnotationsUpdated (hpiece : bloc.piece = some piece)
    (hshown : (watch piece.id).exec Operation.perform cloud = (.ok shown, cloud')) :
    ∀ layer ∈ (bloc.onAnnotationsUpdated shown).layers, layer.hasNewInk = false := by
  rw [onAnnotationsUpdated, hpiece]
  intro layer hlayer
  obtain ⟨i, hi, rfl⟩ := List.mem_mapIdx.mp hlayer
  exact hasNewInk_eq_false (updatedAt_of_watch hshown)

/-- An emission of `watch` marks the layers as it should only when no other participant's layer
document has been written since the watermark. -/
theorem marksNewInk_iff (hpiece : bloc.piece = some piece)
    (hshown : (watch piece.id).exec Operation.perform cloud = (.ok shown, cloud')) :
    (bloc.onAnnotationsUpdated shown).MarksNewInk cloud piece.id ↔
      ∀ watermark, bloc.state.lastOpenedAt = some watermark → ∀ owner ∈ piece.participantIds,
        owner ≠ bloc.state.currentUserId → ¬cloud.ChangedSince piece.id owner watermark := by
  have hviewer : (bloc.onAnnotationsUpdated shown).state = bloc.state := by
    rw [onAnnotationsUpdated, hpiece]
  rw [MarksNewInk, hviewer]
  refine forall₂_congr fun watermark _ => ?_
  rw [← forall_mem_layers_iff hpiece (p := fun owner => owner ≠ bloc.state.currentUserId →
    ¬cloud.ChangedSince piece.id owner watermark)]
  refine forall₂_congr fun layer hlayer => ?_
  rw [hasNewInk_onAnnotationsUpdated hpiece hshown layer hlayer]
  simp

/-! ### A sheet with new ink -/

/-- A sheet whose owner has drawn since the guest last opened it. -/
def drawnSheet : Cloud where
  docs := [(.pieces "piece", pieceToFirestore ⟨"piece", "Sonata", "checksum", "", "owner", none,
      [⟨"guest", none, none⟩], .sinceEpoch 0, .sinceEpoch 2⟩),
    (.layers "piece" "owner", layerToFirestore ⟨"owner", .owner, [], none⟩ 1
      (.sinceEpoch 2)),
    (.reads "piece" "owner", watermark "owner" (.sinceEpoch 1)),
    (.reads "piece" "guest", watermark "guest" (.sinceEpoch 1))]
  nodup := by simp [Assoc.NodupKeys]

/-- The bloc before a piece is opened. -/
def closed (userId : String) : ScoreBloc := ⟨none, ⟨userId, [], none⟩, [], []⟩

/-- The piece as it is opened from the sheet. -/
def drawnPiece : Piece := ⟨"piece", "Sonata", "checksum", "base.pdf", "owner", none,
  [⟨"guest", none, none⟩], .sinceEpoch 0, .sinceEpoch 2⟩

/-- What `watch` emits of the sheet. -/
def drawnAnnotations : PieceAnnotations := ⟨"piece", [⟨"owner", .owner, [], none⟩], []⟩

theorem onOpened_drawnSheet (userId : String) (huser : userId = "owner" ∨ userId = "guest") :
    (closed userId).onOpened drawnSheet "piece" "base.pdf" =
      some ⟨some drawnPiece, ⟨userId, [], some (SharedPiece.instant 1)⟩, [], []⟩ := by
  rcases huser with rfl | rfl <;> decide +kernel

theorem watch_drawnSheet : (watch "piece").exec Operation.perform drawnSheet =
    (.ok drawnAnnotations, drawnSheet) := by
  rfl

/-- The owner, to whom nothing is new, sees the right marks. -/
theorem marksNewInk_drawnSheet : ∃ bloc, (closed "owner").onOpened drawnSheet "piece" "base.pdf" =
    some bloc ∧ (bloc.onAnnotationsUpdated drawnAnnotations).MarksNewInk drawnSheet "piece" := by
  have hpiece : (ScoreBloc.mk (some drawnPiece) ⟨"owner", [], some (SharedPiece.instant 1)⟩ []
      []).piece = some drawnPiece := rfl
  refine ⟨_, onOpened_drawnSheet "owner" (.inl rfl),
    (marksNewInk_iff hpiece watch_drawnSheet).mpr ?_⟩
  rintro watermark - owner howner hother ⟨updatedAt, hupdated, -⟩
  have hguest : owner = "guest" := by
    have hparticipant : owner = "owner" ∨ owner = "guest" := by
      simpa [drawnPiece, Piece.participantIds, Piece.collaboratorIds] using howner
    exact hparticipant.resolve_left hother
  rw [hguest] at hupdated
  cases hupdated

/-- The guest does not see that the owner has drawn. -/
theorem not_marksNewInk : ∃ bloc, (closed "guest").onOpened drawnSheet "piece" "base.pdf" =
    some bloc ∧ (watch "piece").exec Operation.perform drawnSheet =
      (.ok drawnAnnotations, drawnSheet) ∧
    ¬(bloc.onAnnotationsUpdated drawnAnnotations).MarksNewInk drawnSheet "piece" := by
  refine ⟨_, onOpened_drawnSheet "guest" (.inr rfl), watch_drawnSheet, fun h => ?_⟩
  have hmark := (h (SharedPiece.instant 1) rfl (participantLayer drawnPiece drawnAnnotations
    ⟨"guest", [], some (SharedPiece.instant 1)⟩ 0 "owner") (by decide)).mpr
      ⟨by decide, SharedPiece.instant 2, by decide, by decide⟩
  cases hmark

end ScoreBloc

end Duet
