import Duet.Domain.Piece
import Mathlib.Data.Rat.Defs

/-!
# Annotations

Ink strokes, ink layers and audio notes, and the annotations of one piece.

## Main definitions

* `PieceAnnotations` — every participant's layer and the audio notes of a piece.
* `PieceAnnotations.replaceSlice` — one author's layer and notes replaced, everybody else's kept.
* `PieceAnnotations.strokesBy`, `PieceAnnotations.notesBy` — what one author has on a piece.
-/

namespace Duet

/-- A point of a stroke, in fractions of the page. -/
structure InkPoint where
  x : ℚ
  y : ℚ
  deriving DecidableEq, Repr

structure InkStroke where
  id : String
  authorId : String
  pageIndex : Int
  colorId : String
  points : List InkPoint
  deriving DecidableEq, Repr

inductive PieceRole where
  | owner | collaborator
  deriving DecidableEq, Repr

/-- The strokes of one participant. `updatedAt` is stamped by the cloud store only. -/
structure InkLayer where
  ownerId : String
  role : PieceRole
  strokes : List InkStroke
  updatedAt : Option DateTime
  deriving DecidableEq, Repr

/-- A fractional rectangle on a page. -/
structure Region where
  pageIndex : Int
  left : ℚ
  top : ℚ
  width : ℚ
  height : ℚ
  deriving DecidableEq, Repr

/-- A recording pinned to a region; `deletedAt` marks a tombstone. -/
structure AudioNote where
  id : String
  authorId : String
  audioAssetId : String
  pageIndex : Int
  durationMs : Int
  region : Region
  createdAt : DateTime
  deletedAt : Option DateTime
  deriving DecidableEq, Repr

namespace AudioNote

def isTombstoned (note : AudioNote) : Bool := note.deletedAt.isSome

/-- `copyWith(audioAssetId: …)`. -/
def withAsset (note : AudioNote) (assetId : String) : AudioNote :=
  { note with audioAssetId := assetId }

/-- `copyWith(deletedAt: …)`. -/
def tombstone (note : AudioNote) (at_ : DateTime) : AudioNote :=
  { note with deletedAt := some at_ }

/-- The note up to its asset id. -/
def modAsset (note : AudioNote) : AudioNote := note.withAsset ""

@[simp] theorem authorId_withAsset (note : AudioNote) (a : String) :
    (note.withAsset a).authorId = note.authorId := rfl
@[simp] theorem audioAssetId_withAsset (note : AudioNote) (a : String) :
    (note.withAsset a).audioAssetId = a := rfl
@[simp] theorem isTombstoned_withAsset (note : AudioNote) (a : String) :
    (note.withAsset a).isTombstoned = note.isTombstoned := rfl
@[simp] theorem id_withAsset (note : AudioNote) (a : String) : (note.withAsset a).id = note.id :=
  rfl
@[simp] theorem withAsset_withAsset (note : AudioNote) (a b : String) :
    (note.withAsset a).withAsset b = note.withAsset b := rfl
@[simp] theorem modAsset_withAsset (note : AudioNote) (a : String) :
    (note.withAsset a).modAsset = note.modAsset := rfl

end AudioNote

/-- The ink and audio annotations of one piece. -/
structure PieceAnnotations where
  pieceId : String
  layers : List InkLayer
  audioNotes : List AudioNote
  deriving DecidableEq, Repr

namespace PieceAnnotations

def empty (pieceId : String) : PieceAnnotations := ⟨pieceId, [], []⟩

/-- The annotations without their tombstoned notes. -/
def withoutTombstones (a : PieceAnnotations) : PieceAnnotations :=
  { a with audioNotes := a.audioNotes.filter fun n => !n.isTombstoned }

/-- The author's layer and notes replaced by the given ones, the rest kept. -/
def replaceSlice (a : PieceAnnotations) (layer : InkLayer) (notes : List AudioNote) :
    PieceAnnotations :=
  { a with
    layers := a.layers.filter (fun l => l.ownerId != layer.ownerId) ++ [layer]
    audioNotes := a.audioNotes.filter (fun n => n.authorId != layer.ownerId) ++ notes }

/-- The layers owned by `authorId`. -/
def layersOf (a : PieceAnnotations) (authorId : String) : List InkLayer :=
  a.layers.filter fun l => l.ownerId == authorId

/-- The notes authored by `authorId`, tombstones included. -/
def notesBy (a : PieceAnnotations) (authorId : String) : List AudioNote :=
  a.audioNotes.filter fun n => n.authorId == authorId

/-- The strokes authored by `authorId`, in whichever layer they stand. -/
def strokesBy (a : PieceAnnotations) (authorId : String) : List InkStroke :=
  (a.layers.flatMap (·.strokes)).filter fun s => s.authorId == authorId

variable {a : PieceAnnotations} {layer : InkLayer} {notes : List AudioNote} {authorId : String}

@[simp] theorem layersOf_replaceSlice_self :
    (a.replaceSlice layer notes).layersOf layer.ownerId = [layer] := by
  simp [layersOf, replaceSlice, List.filter_filter]

theorem layersOf_replaceSlice_of_ne (h : authorId ≠ layer.ownerId) :
    (a.replaceSlice layer notes).layersOf authorId = a.layersOf authorId := by
  simp only [layersOf, replaceSlice, List.filter_append, List.filter_filter]
  have hlayer : [layer].filter (fun l => l.ownerId == authorId) = [] := by simp [Ne.symm h]
  rw [hlayer, List.append_nil]
  refine List.filter_congr fun l _ => ?_
  by_cases hl : l.ownerId = authorId <;> simp [hl, h]

theorem notesBy_replaceSlice_self (hn : ∀ n ∈ notes, n.authorId = layer.ownerId) :
    (a.replaceSlice layer notes).notesBy layer.ownerId = notes := by
  simp only [notesBy, replaceSlice, List.filter_append, List.filter_filter]
  have hold : a.audioNotes.filter
      (fun n => (n.authorId == layer.ownerId) && (n.authorId != layer.ownerId)) = [] := by
    simp [List.filter_eq_nil_iff]
  rw [hold, List.nil_append, List.filter_eq_self]
  simpa using hn

theorem notesBy_replaceSlice_of_ne (h : authorId ≠ layer.ownerId)
    (hn : ∀ n ∈ notes, n.authorId = layer.ownerId) :
    (a.replaceSlice layer notes).notesBy authorId = a.notesBy authorId := by
  simp only [notesBy, replaceSlice, List.filter_append, List.filter_filter]
  have hnew : notes.filter (fun n => n.authorId == authorId) = [] := by
    rw [List.filter_eq_nil_iff]
    intro n hmem
    simpa [hn n hmem] using Ne.symm h
  rw [hnew, List.append_nil]
  refine List.filter_congr fun n _ => ?_
  by_cases hna : n.authorId = authorId <;> simp [hna, h]

end PieceAnnotations

end Duet
