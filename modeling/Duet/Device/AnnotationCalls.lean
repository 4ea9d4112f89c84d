import Duet.Device.AnnotationRepository
import Mathlib.Data.List.Nodup

/-!
# The calls on one piece's annotations

Every mutation of `LocalAnnotationRepository` reads the annotations of its piece, decides what they
become, and writes them whole. `AnnotationCall.written` is the middle part, as a function of what
was read; `exec_perform` says that a call is the read, this function and the write.

## Main results

* `exec_perform` — a call writes what `written` says, or fails and leaves the annotations alone.
* `written_ok` — the annotations it writes once its guards have passed.
* `written_oneLayerEach` — they have one layer for each owner.
-/

namespace Duet

open Lib Effect

/-- A call on the annotations of one piece. -/
inductive AnnotationCall where
  | addStroke (stroke : InkStroke)
  | eraseStroke (strokeId : String)
  | addAudioNote (note : AudioNote)
  | deleteAudioNote (noteId : String)
  | replaceAuthorSlice (authorId : String) (role : PieceRole) (strokes : List InkStroke)
      (audioNotes : List AudioNote)
  | removeAuthorSlice (authorId : String)
  | clearPiece
  deriving DecidableEq, Repr

/-- The layer of the annotations that holds the stroke, the first one if there are several. -/
def PieceAnnotations.layerHolding (a : PieceAnnotations) (strokeId : String) : Option InkLayer :=
  a.layers.find? fun l => l.strokes.any fun s => s.id == strokeId

/-- The author's layer with the stroke added, a new one of the given role when there is none. -/
def PieceAnnotations.layerAdding (a : PieceAnnotations) (role : PieceRole) (stroke : InkStroke) :
    InkLayer :=
  match a.layers.find? fun l => l.ownerId == stroke.authorId with
  | none => ⟨stroke.authorId, role, [stroke], none⟩
  | some existing => { existing with strokes := existing.strokes ++ [stroke] }

namespace AnnotationCall

/-- The calls of the signed-in user, rather than those that import or remove a slice. -/
def isEdit : AnnotationCall → Bool
  | .addStroke _ | .eraseStroke _ | .addAudioNote _ | .deleteAudioNote _ => true
  | _ => false

/-- The repository's operation for a call. -/
def perform (env : Env) (pieceId : String) : AnnotationCall → Action Unit
  | .addStroke stroke => Duet.addStroke env pieceId stroke
  | .eraseStroke strokeId => Duet.eraseStroke env pieceId strokeId
  | .addAudioNote note => Duet.addAudioNote env pieceId note
  | .deleteAudioNote noteId => Duet.deleteAudioNote env pieceId noteId
  | .replaceAuthorSlice authorId role strokes audioNotes =>
    Duet.replaceAuthorSlice env pieceId authorId role strokes audioNotes
  | .removeAuthorSlice authorId => Duet.removeAuthorSlice env pieceId authorId
  | .clearPiece => Duet.clearPiece env pieceId

/-- The annotations a call writes when `current` is what it has read; `role` is what `_roleFor`
gives for the author of a first stroke. -/
def written (pieceId user : String) (now : DateTime) (role : PieceRole)
    (current : PieceAnnotations) : AnnotationCall → Except Failure PieceAnnotations
  | .addStroke stroke =>
    if stroke.authorId ≠ user then
      .error (.ownershipViolation stroke.id
        (some "cannot add a stroke authored by another participant"))
    else .ok ⟨pieceId, current.layers.filter (fun l => l.ownerId != stroke.authorId) ++
      [current.layerAdding role stroke], current.audioNotes⟩
  | .eraseStroke strokeId =>
    match current.layerHolding strokeId with
    | none => .error (.stateError s!"Unknown stroke: {strokeId}")
    | some layer =>
      if (layer.strokes.find? fun s => s.id == strokeId).map (·.authorId) ≠ some user then
        .error (.ownershipViolation strokeId (some "not the stroke author"))
      else .ok ⟨pieceId, current.layers.map fun l =>
        if l.ownerId = layer.ownerId then
          { l with strokes := layer.strokes.filter fun s => s.id != strokeId }
        else l, current.audioNotes⟩
  | .addAudioNote note =>
    if note.authorId ≠ user then
      .error (.ownershipViolation note.id
        (some "cannot add an audio note authored by another participant"))
    else .ok ⟨pieceId, current.layers, current.audioNotes ++ [note]⟩
  | .deleteAudioNote noteId =>
    match current.audioNotes.find? fun n => n.id == noteId && !n.isTombstoned with
    | none => .error (.stateError s!"Unknown audio note: {noteId}")
    | some note =>
      if note.authorId ≠ user then
        .error (.ownershipViolation noteId (some "not the note author"))
      else .ok ⟨pieceId, current.layers, current.audioNotes.map fun n =>
        if n.id = noteId then n.tombstone now else n⟩
  | .replaceAuthorSlice authorId role strokes audioNotes =>
    .ok ({ current with pieceId := pieceId }.replaceSlice ⟨authorId, role, strokes, none⟩
      audioNotes)
  | .removeAuthorSlice authorId =>
    .ok ⟨pieceId, current.layers.filter (fun l => l.ownerId != authorId),
      current.audioNotes.filter fun n => n.authorId != authorId⟩
  | .clearPiece => .ok (.empty pieceId)

end AnnotationCall

/-- What `_roleFor` gives. -/
def Device.roleFor (d : Device) (pieceId authorId : String) : PieceRole :=
  match d.findPiece pieceId with
  | some piece => if piece.ownerId = authorId then .owner else .collaborator
  | none => .collaborator

/-- The device once a call has written the annotations of the piece. -/
def Device.put (d : Device) (pieceId : String) (a : PieceAnnotations) :
    AnnotationCall → Device
  | .clearPiece =>
    let cleared := d.cacheAnnotations pieceId a
    { cleared with storage := { cleared.storage with
      annotations := cleared.storage.annotations.erase pieceId } }
  | _ => (d.cacheAnnotations pieceId a).storeAnnotations pieceId a

/-- The annotations of a piece as the preferences have them. -/
def Device.storedAnnotations (d : Device) (pieceId : String) : PieceAnnotations :=
  (d.storage.annotations.get pieceId).getD (.empty pieceId)

variable {d : Device}

@[simp] theorem Device.annotationsFor_put (pieceId : String) (a : PieceAnnotations)
    (call : AnnotationCall) : (d.put pieceId a call).annotationsFor pieceId = a := by
  cases call <;> simp [Device.put, Device.annotationsFor, Device.cacheAnnotations,
    Device.storeAnnotations]

/-- The annotations of another piece stay. -/
theorem Device.annotationsFor_put_of_ne {pieceId q : String} (hne : q ≠ pieceId)
    (a : PieceAnnotations) (call : AnnotationCall) :
    (d.put pieceId a call).annotationsFor q = d.annotationsFor q := by
  cases call <;> simp [Device.put, Device.annotationsFor, Device.cacheAnnotations,
    Device.storeAnnotations, hne]

@[simp] theorem Device.pieces_put (pieceId : String) (a : PieceAnnotations)
    (call : AnnotationCall) : (d.put pieceId a call).pieces = d.pieces := by
  cases call <;> rfl

theorem exec_layerWithStroke_eq (current : PieceAnnotations) (pieceId : String)
    (stroke : InkStroke) (d : Device) : (layerWithStroke current pieceId stroke).exec d =
      (.ok (current.layerAdding (d.roleFor pieceId stroke.authorId) stroke), d) := by
  have hrole : (roleFor pieceId stroke.authorId).exec d =
      (.ok (d.roleFor pieceId stroke.authorId), d) := by
    cases hpiece : d.findPiece pieceId <;> simp [Duet.roleFor, Device.roleFor, hpiece]
  cases hfind : current.layers.find? fun l => l.ownerId == stroke.authorId with
  | none =>
    simp only [layerWithStroke, PieceAnnotations.layerAdding, hfind]
    rw [exec_bind_of_ok hrole]
    rfl
  | some existing =>
    simp only [layerWithStroke, PieceAnnotations.layerAdding, hfind]
    rfl

/-- A call writes what `written` says, or fails and leaves the annotations alone. -/
theorem exec_perform (env : Env) (pieceId : String) (call : AnnotationCall) (d : Device)
    (hstored : env.fails .persistAnnotations = false) :
    match call.written pieceId env.currentUserId (env.clock .persistAnnotations)
      (d.roleFor pieceId env.currentUserId) (d.annotationsFor pieceId) with
    | .error e => ∃ d', (call.perform env pieceId).exec d = (.error e, d') ∧ d'.pieces = d.pieces ∧
        d'.storage = d.storage ∧ ∀ q, d'.annotationsFor q = d.annotationsFor q
    | .ok a => (call.perform env pieceId).exec d = (.ok (), d.put pieceId a call) := by
  have hemit : ∀ a, (emitAnnotations env pieceId a).exec
      (d.cacheAnnotations pieceId (d.annotationsFor pieceId)) =
        (.ok (), (d.cacheAnnotations pieceId a).storeAnnotations pieceId a) := by
    intro a
    rw [exec_emitAnnotations, hstored, if_neg Bool.false_ne_true]
    simp [Device.cacheAnnotations]
  have hread : ∀ e : Failure, ∃ d', ((Except.error e : Except Failure Unit),
      d.cacheAnnotations pieceId (d.annotationsFor pieceId)) = (.error e, d') ∧
        d'.pieces = d.pieces ∧ d'.storage = d.storage ∧
          ∀ q, d'.annotationsFor q = d.annotationsFor q := fun e =>
    ⟨_, rfl, rfl, rfl, fun q => Device.annotationsFor_cacheAnnotations_self d pieceId q⟩
  cases call with
  | addStroke stroke =>
    simp only [AnnotationCall.perform, AnnotationCall.written, Duet.addStroke]
    by_cases hauthor : stroke.authorId = env.currentUserId
    · simp only [hauthor, ne_eq, not_true, if_false]
      rw [exec_bind_of_ok (exec_loadAnnotations pieceId d),
        exec_bind_of_ok (exec_layerWithStroke_eq _ _ _ _), hauthor]
      exact hemit _
    · simp only [hauthor, ne_eq, not_false_iff, if_true]
      exact ⟨d, rfl, rfl, rfl, fun _ => rfl⟩
  | eraseStroke strokeId =>
    simp only [AnnotationCall.perform, AnnotationCall.written, Duet.eraseStroke]
    rw [exec_bind_of_ok (exec_loadAnnotations pieceId d)]
    cases hfind : (d.annotationsFor pieceId).layerHolding strokeId with
    | none =>
      rw [PieceAnnotations.layerHolding] at hfind
      simp only [hfind]
      exact hread _
    | some layer =>
      rw [PieceAnnotations.layerHolding] at hfind
      simp only [hfind]
      by_cases hauthor : (layer.strokes.find? fun s => s.id == strokeId).map (·.authorId) =
          some env.currentUserId
      · rw [if_neg (not_not.mpr hauthor), if_neg (not_not.mpr hauthor)]
        exact hemit _
      · rw [if_pos hauthor, if_pos hauthor]
        exact hread _
  | addAudioNote note =>
    simp only [AnnotationCall.perform, AnnotationCall.written, Duet.addAudioNote]
    by_cases hauthor : note.authorId = env.currentUserId
    · simp only [hauthor, ne_eq, not_true, if_false]
      rw [exec_bind_of_ok (exec_loadAnnotations pieceId d)]
      exact hemit _
    · simp only [hauthor, ne_eq, not_false_iff, if_true]
      exact ⟨d, rfl, rfl, rfl, fun _ => rfl⟩
  | deleteAudioNote noteId =>
    simp only [AnnotationCall.perform, AnnotationCall.written, Duet.deleteAudioNote]
    rw [exec_bind_of_ok (exec_loadAnnotations pieceId d)]
    cases hfind : (d.annotationsFor pieceId).audioNotes.find? fun n =>
      n.id == noteId && !n.isTombstoned with
    | none =>
      dsimp only
      exact hread _
    | some note =>
      dsimp only
      by_cases hauthor : note.authorId = env.currentUserId
      · rw [if_neg (not_not.mpr hauthor), if_neg (not_not.mpr hauthor)]
        exact hemit _
      · rw [if_pos hauthor, if_pos hauthor]
        exact hread _
  | replaceAuthorSlice authorId role strokes audioNotes =>
    simp only [AnnotationCall.perform, AnnotationCall.written, Duet.replaceAuthorSlice]
    rw [exec_bind_of_ok (exec_loadAnnotations pieceId d)]
    exact hemit _
  | removeAuthorSlice authorId =>
    simp only [AnnotationCall.perform, AnnotationCall.written, Duet.removeAuthorSlice]
    rw [exec_bind_of_ok (exec_loadAnnotations pieceId d)]
    exact hemit _
  | clearPiece =>
    simp [AnnotationCall.perform, AnnotationCall.written, Duet.clearPiece, Env.await, hstored,
      Device.put]

/-! ## What a call writes -/

/-- No two layers have the same owner. -/
def PieceAnnotations.OneLayerEach (a : PieceAnnotations) : Prop :=
  (a.layers.map (·.ownerId)).Nodup

variable {pieceId user : String} {now : DateTime} {role : PieceRole}
  {current a : PieceAnnotations} {call : AnnotationCall}

theorem PieceAnnotations.ownerId_layerAdding (stroke : InkStroke) :
    (current.layerAdding role stroke).ownerId = stroke.authorId := by
  rw [layerAdding]
  cases h : current.layers.find? fun l => l.ownerId == stroke.authorId with
  | none => rfl
  | some layer =>
    have howner := List.find?_some h
    exact beq_iff_eq.mp howner

theorem PieceAnnotations.mem_strokes_layerAdding {stroke s : InkStroke} :
    s ∈ (current.layerAdding role stroke).strokes ↔ s = stroke ∨
      ∃ l, current.layers.find? (fun l => l.ownerId == stroke.authorId) = some l ∧
        s ∈ l.strokes := by
  rw [layerAdding]
  cases h : current.layers.find? fun l => l.ownerId == stroke.authorId with
  | none => simp
  | some layer => simp [or_comm]

/-- With one layer each, a layer is the only one of its owner. -/
theorem PieceAnnotations.OneLayerEach.eq (h : current.OneLayerEach) {l m : InkLayer}
    (hl : l ∈ current.layers) (hm : m ∈ current.layers) (howner : l.ownerId = m.ownerId) : l = m :=
  List.inj_on_of_nodup_map h hl hm howner

/-- With one layer each, a layer is found under its owner. -/
theorem PieceAnnotations.OneLayerEach.find?_eq (h : current.OneLayerEach) {l : InkLayer}
    (hl : l ∈ current.layers) :
    current.layers.find? (fun m => m.ownerId == l.ownerId) = some l := by
  cases hfind : current.layers.find? fun m => m.ownerId == l.ownerId with
  | none =>
    have hnone := List.find?_eq_none.mp hfind l hl
    simp at hnone
  | some m =>
    have howner := List.find?_some hfind
    rw [h.eq hl (List.mem_of_find?_eq_some hfind) (beq_iff_eq.mp howner).symm]

/-- Changing the strokes of one layer replaces that layer. -/
theorem PieceAnnotations.OneLayerEach.mem_map_layer (h : current.OneLayerEach) {layer l : InkLayer}
    (hlayer : layer ∈ current.layers) (strokes : List InkStroke) :
    l ∈ current.layers.map (fun l =>
        if l.ownerId = layer.ownerId then { l with strokes := strokes } else l) ↔
      (l ∈ current.layers ∧ l.ownerId ≠ layer.ownerId) ∨ l = { layer with strokes := strokes } := by
  rw [List.mem_map]
  constructor
  · intro ⟨m, hm, heq⟩
    by_cases howner : m.ownerId = layer.ownerId
    · obtain rfl := h.eq hm hlayer howner
      exact .inr (by simpa using heq.symm)
    · rw [if_neg howner] at heq
      exact .inl ⟨heq ▸ hm, heq ▸ howner⟩
  · intro hl
    obtain ⟨hl, hne⟩ | rfl := hl
    · exact ⟨l, hl, if_neg hne⟩
    · exact ⟨layer, hlayer, if_pos rfl⟩

theorem PieceAnnotations.mem_of_layerHolding {strokeId : String} {l : InkLayer}
    (h : current.layerHolding strokeId = some l) : l ∈ current.layers :=
  List.mem_of_find?_eq_some h

/-- The annotations a call writes once its guards have passed. -/
def AnnotationCall.Writes (pieceId : String) (now : DateTime) (role : PieceRole)
    (current a : PieceAnnotations) : AnnotationCall → Prop
  | .addStroke stroke => a = ⟨pieceId,
      current.layers.filter (fun l => l.ownerId != stroke.authorId) ++
        [current.layerAdding role stroke], current.audioNotes⟩
  | .eraseStroke strokeId => ∃ layer, current.layerHolding strokeId = some layer ∧
      a = ⟨pieceId, current.layers.map fun l => if l.ownerId = layer.ownerId then
        { l with strokes := layer.strokes.filter fun s => s.id != strokeId } else l,
        current.audioNotes⟩
  | .addAudioNote note => a = ⟨pieceId, current.layers, current.audioNotes ++ [note]⟩
  | .deleteAudioNote noteId => a = ⟨pieceId, current.layers,
      current.audioNotes.map fun n => if n.id = noteId then n.tombstone now else n⟩
  | .replaceAuthorSlice authorId role strokes audioNotes =>
      a = { current with pieceId := pieceId }.replaceSlice ⟨authorId, role, strokes, none⟩
        audioNotes
  | .removeAuthorSlice authorId => a = ⟨pieceId,
      current.layers.filter (fun l => l.ownerId != authorId),
      current.audioNotes.filter fun n => n.authorId != authorId⟩
  | .clearPiece => a = .empty pieceId

theorem AnnotationCall.written_ok (h : call.written pieceId user now role current = .ok a) :
    call.Writes pieceId now role current a := by
  cases call <;> simp only [written] at h
  case addStroke | addAudioNote =>
    split_ifs at h
    exact (Except.ok.inj h).symm
  case eraseStroke strokeId =>
    cases hlayer : current.layerHolding strokeId with
    | none => simp [hlayer] at h
    | some layer =>
      simp only [hlayer] at h
      split_ifs at h
      exact ⟨layer, hlayer, (Except.ok.inj h).symm⟩
  case deleteAudioNote noteId =>
    cases hnote : current.audioNotes.find? fun n => n.id == noteId && !n.isTombstoned with
    | none => simp [hnote] at h
    | some note =>
      simp only [hnote] at h
      split_ifs at h
      exact (Except.ok.inj h).symm
  all_goals exact (Except.ok.inj h).symm

/-- A write keeps one layer for each owner. -/
theorem AnnotationCall.written_oneLayerEach (honce : current.OneLayerEach)
    (h : call.written pieceId user now role current = .ok a) : a.OneLayerEach := by
  have hok := written_ok h
  clear h
  have hfilter : ∀ author, ((current.layers.filter fun l => l.ownerId != author).map
      (·.ownerId)).Nodup := fun author => List.Nodup.sublist (List.filter_sublist.map _) honce
  have happend : ∀ l : InkLayer, ((current.layers.filter (fun m => m.ownerId != l.ownerId) ++
      [l]).map (·.ownerId)).Nodup := by
    intro l
    rw [List.map_append, List.nodup_append]
    refine ⟨hfilter l.ownerId, by simp, ?_⟩
    intro x hx y hy hxy
    obtain ⟨m, hm, rfl⟩ := List.mem_map.mp hx
    simp only [List.map_cons, List.map_nil, List.mem_singleton] at hy
    simp [hxy, hy] at hm
  cases call with
  | addStroke stroke =>
    obtain rfl : a = _ := hok
    have hnodup := happend (current.layerAdding role stroke)
    rwa [PieceAnnotations.ownerId_layerAdding] at hnodup
  | eraseStroke strokeId =>
    obtain ⟨layer, -, rfl⟩ := hok
    have howners : (current.layers.map fun l => if l.ownerId = layer.ownerId then
        { l with strokes := layer.strokes.filter fun s => s.id != strokeId } else l).map
          (·.ownerId) = current.layers.map (·.ownerId) := by
      rw [List.map_map]
      refine List.map_congr_left fun l _ => ?_
      simp only [Function.comp_apply]
      split_ifs <;> rfl
    rw [PieceAnnotations.OneLayerEach, howners]
    exact honce
  | addAudioNote note =>
    obtain rfl : a = _ := hok
    exact honce
  | deleteAudioNote noteId =>
    obtain rfl : a = _ := hok
    exact honce
  | replaceAuthorSlice authorId role strokes audioNotes =>
    obtain rfl : a = _ := hok
    exact happend ⟨authorId, role, strokes, none⟩
  | removeAuthorSlice authorId =>
    obtain rfl : a = _ := hok
    exact hfilter authorId
  | clearPiece =>
    obtain rfl : a = _ := hok
    exact List.nodup_nil

end Duet
