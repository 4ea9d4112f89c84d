import Duet.Domain.Piece
import Duet.Lib.Assoc
import Mathlib.Data.List.Perm.Basic

/-!
# The library

What `LibraryState` shows of the pieces that a user sees: the shelves, and which pieces are unread.
-/

namespace Duet

open Lib

/-- The pieces that the current user sees, and when the user last opened them. -/
structure LibraryState where
  currentUserId : String
  pieces : List Piece
  lastOpenedAt : Assoc String DateTime
  deriving DecidableEq, Repr

namespace LibraryState

/-- A piece that is shared with the user, and has changed since it was last opened. -/
def isUnread (state : LibraryState) (piece : Piece) : Bool :=
  piece.isCollaborator state.currentUserId &&
    match state.lastOpenedAt.get piece.id with
    | none => true
    | some openedAt => openedAt.micros < piece.updatedAt.micros

/-- The shelf of the user's own sheets. -/
def myPieces (state : LibraryState) : List Piece :=
  state.pieces.filter fun piece => piece.ownerId == state.currentUserId

/-- The shelf of the sheets that others share with the user. -/
def sharedWithMe (state : LibraryState) : List Piece :=
  state.pieces.filter fun piece => piece.isCollaborator state.currentUserId

/-- What a user sees is on exactly one shelf, where no owner is a collaborator. -/
theorem perm_shelves {state : LibraryState}
    (hvisible : ∀ piece ∈ state.pieces, piece.isParticipant state.currentUserId = true)
    (howner : ∀ piece ∈ state.pieces, piece.ownerId ∉ piece.collaboratorIds) :
    (state.myPieces ++ state.sharedWithMe).Perm state.pieces := by
  have hshared : state.sharedWithMe =
      state.pieces.filter fun piece => !(piece.ownerId == state.currentUserId) := by
    refine List.filter_congr fun piece hpiece => ?_
    have hsees := hvisible piece hpiece
    have hout := howner piece hpiece
    rw [← Piece.isCollaborator_iff] at hout
    by_cases hown : piece.ownerId = state.currentUserId
    · rw [hown] at hout
      simp [hown, hout]
    · have hnot : (state.currentUserId == piece.ownerId) = false := by simpa using Ne.symm hown
      rw [Piece.isParticipant, hnot, Bool.false_or] at hsees
      simp [hown, hsees]
  rw [hshared]
  exact List.filter_append_perm _ _

end LibraryState

end Duet
