import Duet.Device.AnnotationRepository

/-!
# Leaving a piece

The members of `LocalPieceRepository` that take a collaborator off a piece: they change the piece
in memory, store it, and drop what the collaborator has drawn and recorded.
-/

namespace Duet

open Lib Effect

/-- `_replace`: every piece of that id. -/
def Device.replacePiece (d : Device) (updated : Piece) : Device :=
  { d with pieces := d.pieces.map fun piece => if piece.id = updated.id then updated else piece }

/-- The piece without a collaborator. -/
def Piece.without (piece : Piece) (userId : String) (now : DateTime) : Piece :=
  { piece with
    collaborators := piece.collaborators.filter fun c => c.uid != userId
    updatedAt := now }

namespace LocalPieceRepository

/-- `_require`. -/
def requirePiece (pieceId : String) : Action Piece := do
  let d ← get
  orFail (d.findPiece pieceId) (.stateError s!"Unknown piece: {pieceId}")

/-- `_emit`. -/
def emitPieces (env : Env) : Action Unit := do
  env.await .persistPieces
  modify fun d => { d with storage := { d.storage with pieceRecords := some d.pieces } }

def leavePiece (env : Env) (pieceId : String) : Action Unit := do
  let piece ← requirePiece pieceId
  if env.currentUserId = piece.ownerId then
    fail (.stateError "The owner of this piece cannot leave it; delete it instead.")
  else if !piece.isCollaborator env.currentUserId then pure ()
  else do
    modify fun d => d.replacePiece (piece.without env.currentUserId (env.clock .persistPieces))
    emitPieces env
    removeAuthorSlice env pieceId env.currentUserId

def removeCollaborator (env : Env) (pieceId userId : String) : Action Unit := do
  let piece ← requirePiece pieceId
  if env.currentUserId ≠ piece.ownerId then
    fail (.ownershipViolation pieceId (some "only the owner may remove a collaborator"))
  else if !piece.isCollaborator userId then pure ()
  else do
    modify fun d => d.replacePiece (piece.without userId (env.clock .persistPieces))
    emitPieces env
    removeAuthorSlice env pieceId userId

/-! ## What the operations do -/

variable {env : Env} {d : Device} {pieceId userId : String}

theorem keeps_emitPieces : Keeps Device.pieces (emitPieces env) :=
  .bind (env.respects_await _ _) fun _ => .modify fun _ => rfl

theorem keeps_removeAuthorSlice : Keeps Device.pieces (removeAuthorSlice env pieceId userId) :=
  .bind (fun _ => rfl) fun _ =>
    keeps_emitAnnotations Device.pieces env _ _ (fun _ _ _ => rfl) fun _ _ _ => rfl

/-- The piece that is required is one of those that are held. -/
theorem exec_requirePiece : (requirePiece pieceId).exec d =
    match d.findPiece pieceId with
    | none => (.error (.stateError s!"Unknown piece: {pieceId}"), d)
    | some piece => (.ok piece, d) := by
  rw [requirePiece, exec_get_bind]
  cases d.findPiece pieceId <;> rfl

/-- The pieces after a call that leaves them, or takes one collaborator off one of them. -/
def TakesOff (pieces after : List Piece) : Prop :=
  after = pieces ∨ ∃ piece ∈ pieces, ∃ userId now,
    after = pieces.map fun p => if p.id = piece.id then piece.without userId now else p

/-- A collaborator is taken off before anything is awaited. -/
theorem pieces_without (piece : Piece) (now : DateTime) :
    ((do
      modify fun d => d.replacePiece (piece.without userId now)
      emitPieces env
      removeAuthorSlice env pieceId userId : Action Unit).exec d).2.pieces =
        d.pieces.map fun p => if p.id = piece.id then piece.without userId now else p := by
  have hkeeps : Keeps Device.pieces (emitPieces env >>= fun _ =>
      removeAuthorSlice env pieceId userId) :=
    .bind keeps_emitPieces fun _ => keeps_removeAuthorSlice
  rw [exec_modify_bind]
  exact hkeeps _

theorem takesOff_leavePiece : TakesOff d.pieces ((leavePiece env pieceId).exec d).2.pieces := by
  rw [leavePiece, exec_bind, exec_requirePiece]
  cases hpiece : d.findPiece pieceId with
  | none => exact .inl rfl
  | some piece =>
    dsimp only
    split_ifs
    · exact .inl rfl
    · exact .inl rfl
    · exact .inr ⟨piece, List.mem_of_find?_eq_some hpiece, _, _, pieces_without piece _⟩

theorem takesOff_removeCollaborator :
    TakesOff d.pieces ((removeCollaborator env pieceId userId).exec d).2.pieces := by
  rw [removeCollaborator, exec_bind, exec_requirePiece]
  cases hpiece : d.findPiece pieceId with
  | none => exact .inl rfl
  | some piece =>
    dsimp only
    split_ifs
    · exact .inl rfl
    · exact .inl rfl
    · exact .inr ⟨piece, List.mem_of_find?_eq_some hpiece, _, _, pieces_without piece _⟩

end LocalPieceRepository

end Duet
