import Duet.Device.State

/-!
# `LocalAnnotationRepository`

The annotations of each piece, cached in memory and stored whole in the preferences. Every
mutation but the privileged ones guards the author; a delete of a note tombstones it.

`exec_emit` says what one write does. Each operation is a guard, a read of the current
annotations and one `emit`; `keeps_emit` is the frame rule they share.
-/

namespace Duet

open Lib Effect

/-- What the stored JSON of annotations decodes to: a layer's `updatedAt` is not written. -/
def PieceAnnotations.stored (a : PieceAnnotations) : PieceAnnotations :=
  { a with layers := a.layers.map fun l => { l with updatedAt := none } }

namespace Device

/-- The annotations of a piece put in the cache. -/
def cacheAnnotations (d : Device) (pieceId : String) (a : PieceAnnotations) : Device :=
  { d with annotationCache := d.annotationCache.set pieceId a }

/-- The annotations of a piece put in the preferences. -/
def storeAnnotations (d : Device) (pieceId : String) (a : PieceAnnotations) : Device :=
  { d with storage := { d.storage with
      annotations := d.storage.annotations.set pieceId a.stored } }

@[simp] theorem annotationsFor_cacheAnnotations (d : Device) (p q : String)
    (a : PieceAnnotations) : (d.cacheAnnotations p a).annotationsFor q =
      if q = p then a else d.annotationsFor q := by
  by_cases h : q = p <;> simp [annotationsFor, cacheAnnotations, h]

/-- Caching what is read changes no piece's annotations. -/
@[simp] theorem annotationsFor_cacheAnnotations_self (d : Device) (p q : String) :
    (d.cacheAnnotations p (d.annotationsFor p)).annotationsFor q = d.annotationsFor q := by
  rw [annotationsFor_cacheAnnotations]
  split_ifs with h
  · rw [h]
  · rfl

/-- A cached piece is read from the cache. -/
@[simp] theorem annotationsFor_storeAnnotations_cached (d : Device) (p q : String)
    (a b : PieceAnnotations) :
    ((d.cacheAnnotations p a).storeAnnotations p b).annotationsFor q =
      (d.cacheAnnotations p a).annotationsFor q := by
  by_cases h : q = p <;> simp [annotationsFor, cacheAnnotations, storeAnnotations, h]

end Device

/-- `_annotationsFor`: the annotations of a piece, cached on the way. -/
def loadAnnotations (pieceId : String) : Action PieceAnnotations := do
  let d ← get
  modify fun d' => d'.cacheAnnotations pieceId (d.annotationsFor pieceId)
  pure (d.annotationsFor pieceId)

/-- `_emit`: the cache is updated first, then the preferences. -/
def emitAnnotations (env : Env) (pieceId : String) (a : PieceAnnotations) : Action Unit := do
  modify fun d => d.cacheAnnotations pieceId a
  env.await .persistAnnotations
  modify fun d => d.storeAnnotations pieceId a

/-- `watch(pieceId).first`. -/
def watchFirst (pieceId : String) : Action PieceAnnotations := do
  let a ← loadAnnotations pieceId
  pure a.withoutTombstones

def snapshotWithTombstones (pieceId : String) : Action PieceAnnotations :=
  loadAnnotations pieceId

/-- `_roleFor`; an unknown piece or participant reads as a collaborator. -/
def roleFor (pieceId authorId : String) : Action PieceRole := do
  let d ← get
  match d.findPiece pieceId with
  | some piece => pure (if piece.ownerId = authorId then .owner else .collaborator)
  | none => pure .collaborator

/-- The author's layer with the stroke added; a new layer when the author has none. -/
def layerWithStroke (current : PieceAnnotations) (pieceId : String) (stroke : InkStroke) :
    Action InkLayer :=
  match current.layers.find? fun l => l.ownerId == stroke.authorId with
  | none => do
    let role ← roleFor pieceId stroke.authorId
    pure ⟨stroke.authorId, role, [stroke], none⟩
  | some existing => pure { existing with strokes := existing.strokes ++ [stroke] }

def addStroke (env : Env) (pieceId : String) (stroke : InkStroke) : Action Unit := do
  if stroke.authorId ≠ env.currentUserId then
    fail (.ownershipViolation stroke.id
      (some "cannot add a stroke authored by another participant"))
  else do
    let current ← loadAnnotations pieceId
    let layer ← layerWithStroke current pieceId stroke
    emitAnnotations env pieceId
      ⟨pieceId, current.layers.filter (fun l => l.ownerId != stroke.authorId) ++ [layer],
        current.audioNotes⟩

/-- The first layer that holds the stroke decides: its stroke's author must be the caller. -/
def eraseStroke (env : Env) (pieceId strokeId : String) : Action Unit := do
  let current ← loadAnnotations pieceId
  match current.layers.find? fun l => l.strokes.any fun s => s.id == strokeId with
  | none => fail (.stateError s!"Unknown stroke: {strokeId}")
  | some layer =>
    if (layer.strokes.find? fun s => s.id == strokeId).map (·.authorId) ≠
        some env.currentUserId then
      fail (.ownershipViolation strokeId (some "not the stroke author"))
    else
      let updatedStrokes := layer.strokes.filter fun s => s.id != strokeId
      emitAnnotations env pieceId
        ⟨pieceId, current.layers.map fun l =>
          if l.ownerId = layer.ownerId then { l with strokes := updatedStrokes } else l,
          current.audioNotes⟩

def addAudioNote (env : Env) (pieceId : String) (note : AudioNote) : Action Unit := do
  if note.authorId ≠ env.currentUserId then
    fail (.ownershipViolation note.id
      (some "cannot add an audio note authored by another participant"))
  else do
    let current ← loadAnnotations pieceId
    emitAnnotations env pieceId ⟨pieceId, current.layers, current.audioNotes ++ [note]⟩

/-- Tombstones the note; a tombstoned one reads as unknown. -/
def deleteAudioNote (env : Env) (pieceId noteId : String) : Action Unit := do
  let current ← loadAnnotations pieceId
  match current.audioNotes.find? fun n => n.id == noteId && !n.isTombstoned with
  | none => fail (.stateError s!"Unknown audio note: {noteId}")
  | some note =>
    if note.authorId ≠ env.currentUserId then
      fail (.ownershipViolation noteId (some "not the note author"))
    else
      emitAnnotations env pieceId
        ⟨pieceId, current.layers, current.audioNotes.map fun n =>
          if n.id = noteId then n.tombstone (env.clock .persistAnnotations) else n⟩

/-- Not ownership-gated: the cache is emptied first, then the preferences. -/
def clearPiece (env : Env) (pieceId : String) : Action Unit := do
  modify fun d => d.cacheAnnotations pieceId (.empty pieceId)
  env.await .persistAnnotations
  modify fun d => { d with storage := { d.storage with
    annotations := d.storage.annotations.erase pieceId } }

/-- Not ownership-gated: applies an imported slice. -/
def replaceAuthorSlice (env : Env) (pieceId authorId : String) (role : PieceRole)
    (strokes : List InkStroke) (audioNotes : List AudioNote) : Action Unit := do
  let current ← loadAnnotations pieceId
  emitAnnotations env pieceId
    ({ current with pieceId := pieceId }.replaceSlice ⟨authorId, role, strokes, none⟩ audioNotes)

/-- Not ownership-gated: drops the layer and the notes of a participant who left. -/
def removeAuthorSlice (env : Env) (pieceId authorId : String) : Action Unit := do
  let current ← loadAnnotations pieceId
  emitAnnotations env pieceId
    ⟨pieceId, current.layers.filter (fun l => l.ownerId != authorId),
      current.audioNotes.filter fun n => n.authorId != authorId⟩

/-! ## What the operations do -/

@[simp] theorem exec_loadAnnotations (pieceId : String) (d : Device) :
    (loadAnnotations pieceId).exec d =
      (.ok (d.annotationsFor pieceId),
        d.cacheAnnotations pieceId (d.annotationsFor pieceId)) := rfl

@[simp] theorem exec_watchFirst (pieceId : String) (d : Device) :
    (watchFirst pieceId).exec d =
      (.ok (d.annotationsFor pieceId).withoutTombstones,
        d.cacheAnnotations pieceId (d.annotationsFor pieceId)) := rfl

/-- A write either reaches the preferences or leaves the cache ahead of them. -/
theorem exec_emitAnnotations (env : Env) (pieceId : String) (a : PieceAnnotations) (d : Device) :
    (emitAnnotations env pieceId a).exec d =
      if env.fails .persistAnnotations then
        (.error (.platform .persistAnnotations), d.cacheAnnotations pieceId a)
      else (.ok (), (d.cacheAnnotations pieceId a).storeAnnotations pieceId a) := by
  cases h : env.fails .persistAnnotations <;>
    simp [emitAnnotations, Env.await, h]

/-- A write of one piece's annotations is seen at once, whether or not it reaches the
preferences, and no other piece's annotations change. -/
theorem annotationsFor_emitAnnotations (env : Env) (p q : String) (a : PieceAnnotations)
    (d : Device) : ((emitAnnotations env p a).exec d).2.annotationsFor q =
      if q = p then a else d.annotationsFor q := by
  rw [exec_emitAnnotations]
  split_ifs <;> simp_all

/-- Parts of the device that neither the cache nor the stored annotations touch are kept. -/
theorem keeps_emitAnnotations {γ : Type} (view : Device → γ) (env : Env) (pieceId : String)
    (a : PieceAnnotations) (hc : ∀ d p b, view (Device.cacheAnnotations d p b) = view d)
    (hs : ∀ d p b, view (Device.storeAnnotations d p b) = view d) :
    Keeps view (emitAnnotations env pieceId a) := by
  intro d
  rw [exec_emitAnnotations]
  split_ifs
  · exact hc _ _ _
  · exact (hs _ _ _).trans (hc _ _ _)

/-! ## The user's edits -/

/-- An edit of a piece's annotations. -/
inductive Edit where
  | addStroke (pieceId : String) (stroke : InkStroke)
  | eraseStroke (pieceId strokeId : String)
  | addAudioNote (pieceId : String) (note : AudioNote)
  | deleteAudioNote (pieceId noteId : String)
  deriving DecidableEq, Repr

/-- The repository's operation for an edit. -/
def Edit.perform (env : Env) : Edit → Action Unit
  | .addStroke pieceId stroke => Duet.addStroke env pieceId stroke
  | .eraseStroke pieceId strokeId => Duet.eraseStroke env pieceId strokeId
  | .addAudioNote pieceId note => Duet.addAudioNote env pieceId note
  | .deleteAudioNote pieceId noteId => Duet.deleteAudioNote env pieceId noteId

/-- An edit touches only annotations, cached or stored. -/
theorem keeps_perform {γ : Type} (view : Device → γ) (env : Env) (edit : Edit)
    (hc : ∀ d p b, view (Device.cacheAnnotations d p b) = view d)
    (hs : ∀ d p b, view (Device.storeAnnotations d p b) = view d) :
    Keeps view (edit.perform env) := by
  have hload : ∀ pieceId, Keeps view (loadAnnotations pieceId) := fun pieceId d => hc _ _ _
  have hemit : ∀ pieceId a, Keeps view (emitAnnotations env pieceId a) := fun pieceId a =>
    keeps_emitAnnotations view env pieceId a hc hs
  have hrole : ∀ pieceId authorId, Keeps view (roleFor pieceId authorId) := by
    intro pieceId authorId
    refine .bind .get fun d => ?_
    cases d.findPiece pieceId <;> exact .pure _
  cases edit with
  | addStroke pieceId stroke =>
    rw [Edit.perform, Duet.addStroke]
    split_ifs
    · exact .fail _
    · refine .bind (hload _) fun current => .bind ?_ fun layer => hemit _ _
      rw [layerWithStroke]
      cases current.layers.find? fun l => l.ownerId == stroke.authorId with
      | none => exact .bind (hrole _ _) fun role => .pure _
      | some existing => exact .pure _
  | eraseStroke pieceId strokeId =>
    refine .bind (hload _) fun current => ?_
    cases current.layers.find? fun l => l.strokes.any fun s => s.id == strokeId with
    | none => exact .fail _
    | some layer =>
      dsimp only
      split_ifs
      · exact .fail _
      · exact hemit _ _
  | addAudioNote pieceId note =>
    rw [Edit.perform, Duet.addAudioNote]
    split_ifs
    · exact .fail _
    · exact .bind (hload _) fun current => hemit _ _
  | deleteAudioNote pieceId noteId =>
    refine .bind (hload _) fun current => ?_
    cases current.audioNotes.find? fun n => n.id == noteId && !n.isTombstoned with
    | none => exact .fail _
    | some note =>
      dsimp only
      split_ifs
      · exact .fail _
      · exact hemit _ _

/-! ## Whose annotations an edit changes -/

/-- Everybody else's layers and notes, on every piece, are what they were. -/
def Device.SameOthers (d : Device) (author : String) (d' : Device) : Prop :=
  ∀ a, a ≠ author → ∀ q, (d'.annotationsFor q).layersOf a = (d.annotationsFor q).layersOf a ∧
    (d'.annotationsFor q).notesBy a = (d.annotationsFor q).notesBy a

/-- Every stroke stands in its author's layer. -/
def PieceAnnotations.StrokesOwned (a : PieceAnnotations) : Prop :=
  ∀ l ∈ a.layers, ∀ s ∈ l.strokes, s.authorId = l.ownerId

/-- The notes with one id have one author. -/
def PieceAnnotations.NoteIdsOwned (a : PieceAnnotations) : Prop :=
  ∀ n ∈ a.audioNotes, ∀ m ∈ a.audioNotes, n.id = m.id → n.authorId = m.authorId

variable {d : Device}

/-- The layer an added stroke goes to is its author's. -/
theorem exec_layerWithStroke (current : PieceAnnotations) (pieceId : String) (stroke : InkStroke)
    (d : Device) : ∃ layer, (layerWithStroke current pieceId stroke).exec d = (.ok layer, d) ∧
      layer.ownerId = stroke.authorId := by
  have hrole : ∃ role, (roleFor pieceId stroke.authorId).exec d = (.ok role, d) := by
    rcases hpiece : d.findPiece pieceId with _ | piece
    · exact ⟨.collaborator, by simp [roleFor, hpiece]⟩
    · exact ⟨if piece.ownerId = stroke.authorId then .owner else .collaborator,
        by simp [roleFor, hpiece]⟩
  rcases hfind : current.layers.find? fun l => l.ownerId == stroke.authorId with _ | existing
  · obtain ⟨role, hexec⟩ := hrole
    refine ⟨⟨stroke.authorId, role, [stroke], none⟩, ?_, rfl⟩
    simp only [layerWithStroke, hfind]
    rw [exec_bind_of_ok hexec]
    rfl
  · have howner := List.find?_some hfind
    refine ⟨{ existing with strokes := existing.strokes ++ [stroke] }, ?_, by simpa using howner⟩
    simp only [layerWithStroke, hfind]
    rfl

/-- A map that only changes entries outside the filter, and leaves them outside. -/
theorem filter_map_eq_filter {α : Type*} {p : α → Bool} {f : α → α} {l : List α}
    (hp : ∀ x ∈ l, p (f x) = p x) (hf : ∀ x ∈ l, p x = true → f x = x) :
    (l.map f).filter p = l.filter p := by
  induction l with
  | nil => rfl
  | cons x rest ih =>
    have hrest := ih (fun y hy => hp y (List.mem_cons_of_mem _ hy))
      fun y hy => hf y (List.mem_cons_of_mem _ hy)
    have hx := hp x (by simp)
    cases h : p x with
    | false => simp [hx, h, hrest]
    | true => simp [hf x (by simp) h, h, hrest]

/-- One write of a piece's annotations that keeps everybody else's. -/
theorem Device.sameOthers_emit {env : Env} {pieceId user : String} {a : PieceAnnotations}
    (h : ∀ b, b ≠ user → a.layersOf b = (d.annotationsFor pieceId).layersOf b ∧
      a.notesBy b = (d.annotationsFor pieceId).notesBy b) :
    d.SameOthers user ((emitAnnotations env pieceId a).exec
      (d.cacheAnnotations pieceId (d.annotationsFor pieceId))).2 := by
  intro b hne q
  rw [annotationsFor_emitAnnotations, Device.annotationsFor_cacheAnnotations_self]
  split_ifs with hq
  · rw [hq]
    exact h b hne
  · exact ⟨rfl, rfl⟩

theorem Device.sameOthers_cache (d : Device) (user pieceId : String) :
    d.SameOthers user (d.cacheAnnotations pieceId (d.annotationsFor pieceId)) := by
  intro b _ q
  rw [Device.annotationsFor_cacheAnnotations_self]
  exact ⟨rfl, rfl⟩

/-- While every stroke stands in its author's layer, an edit leaves everybody but its user alone. -/
theorem Device.sameOthers_perform (env : Env) (edit : Edit)
    (howned : ∀ q, (d.annotationsFor q).StrokesOwned)
    (hids : ∀ q, (d.annotationsFor q).NoteIdsOwned) :
    d.SameOthers env.currentUserId ((edit.perform env).exec d).2 := by
  cases edit with
  | addStroke pieceId stroke =>
    simp only [Edit.perform, Duet.addStroke]
    split_ifs with hauthor
    · exact fun _ _ _ => ⟨rfl, rfl⟩
    · rw [not_not] at hauthor
      rw [exec_bind_of_ok (exec_loadAnnotations pieceId d)]
      obtain ⟨layer, hlayer, howner⟩ := exec_layerWithStroke (d.annotationsFor pieceId) pieceId
        stroke (d.cacheAnnotations pieceId (d.annotationsFor pieceId))
      rw [exec_bind_of_ok hlayer]
      refine Device.sameOthers_emit fun b hne => ⟨?_, rfl⟩
      have hother : b ≠ layer.ownerId := by rwa [howner, hauthor]
      rw [← howner]
      have hreplaced : ((d.annotationsFor pieceId).replaceSlice layer []).layersOf b = _ :=
        PieceAnnotations.layersOf_replaceSlice_of_ne hother
      exact hreplaced
  | eraseStroke pieceId strokeId =>
    simp only [Edit.perform, Duet.eraseStroke]
    rw [exec_bind_of_ok (exec_loadAnnotations pieceId d)]
    rcases hfind : (d.annotationsFor pieceId).layers.find? fun l => l.strokes.any fun s =>
      s.id == strokeId with _ | layer
    · simp only [hfind]
      exact d.sameOthers_cache _ _
    · simp only [hfind]
      split_ifs with hauthor
      · exact d.sameOthers_cache _ _
      · refine Device.sameOthers_emit fun b hne => ⟨?_, rfl⟩
        have howner : layer.ownerId = env.currentUserId := by
          rw [ne_eq, not_not, Option.map_eq_some_iff] at hauthor
          obtain ⟨s, hs, huser⟩ := hauthor
          rw [← huser]
          exact (howned pieceId layer (List.mem_of_find?_eq_some hfind) s
            (List.mem_of_find?_eq_some hs)).symm
        refine filter_map_eq_filter (fun l _ => ?_) fun l _ hl => ?_
        · split_ifs <;> rfl
        · refine if_neg fun heq => hne ?_
          rw [← howner, ← heq]
          exact (beq_iff_eq.mp hl).symm
  | addAudioNote pieceId note =>
    simp only [Edit.perform, Duet.addAudioNote]
    split_ifs with hauthor
    · exact fun _ _ _ => ⟨rfl, rfl⟩
    · rw [not_not] at hauthor
      rw [exec_bind_of_ok (exec_loadAnnotations pieceId d)]
      refine Device.sameOthers_emit fun b hne => ⟨rfl, ?_⟩
      simp [PieceAnnotations.notesBy, hauthor, Ne.symm hne]
  | deleteAudioNote pieceId noteId =>
    simp only [Edit.perform, Duet.deleteAudioNote]
    rw [exec_bind_of_ok (exec_loadAnnotations pieceId d)]
    rcases hfind : (d.annotationsFor pieceId).audioNotes.find? fun n =>
      n.id == noteId && !n.isTombstoned with _ | note
    · simp only [hfind]
      exact d.sameOthers_cache _ _
    · simp only [hfind]
      split_ifs with hauthor
      · exact d.sameOthers_cache _ _
      · refine Device.sameOthers_emit fun b hne => ⟨rfl, ?_⟩
        rw [not_not] at hauthor
        have hnote := List.find?_some hfind
        simp only [Bool.and_eq_true, beq_iff_eq] at hnote
        refine filter_map_eq_filter (fun n _ => ?_) fun n hn hb => ?_
        · split_ifs <;> rfl
        · refine if_neg fun hid => hne ?_
          have hsame := hids pieceId n hn note (List.mem_of_find?_eq_some hfind)
            (hid.trans hnote.1.symm)
          rw [← hauthor, ← hsame]
          exact (beq_iff_eq.mp hb).symm

end Duet
