import Duet.Device.State

/-!
# `LocalPieceRepository`

The pieces of a device, kept in memory and stored whole in the preferences; base PDFs are copied
under `pieces/` and checksummed.

`sha256` is the checksum of a file's content (`PdfRenderService.checksum`).
-/

namespace Duet

open Lib Effect

section

variable (sha256 : Content → String)

/-- The path of a base PDF: `<documents>/pieces/<id><extension of the source>`. -/
def piecesPath (documentsDirectory id sourcePath : String) : String :=
  Path.join (Path.join documentsDirectory "pieces") (id ++ Path.extension sourcePath)

/-- `PdfRenderService.checksum`: of the bytes at `path`. -/
def checksumOf (env : Env) (path : String) : Action String := do
  env.await .checksumPdf
  let d ← get
  let content ← orFail (d.files.get path) (.platform .checksumPdf)
  pure (sha256 content)

/-- `_copyIntoPiecesStorage`: checksum the source, then copy it; returns both. -/
def copyIntoPiecesStorage (env : Env) (id sourcePath : String) : Action (String × String) := do
  let checksum ← checksumOf sha256 env sourcePath
  let destPath := piecesPath env.documentsDirectory id sourcePath
  env.await .copyPdf
  let d ← get
  let content ← orFail (d.files.get sourcePath) (.platform .copyPdf)
  modify fun d => { d with files := d.files.set destPath content }
  pure (checksum, destPath)

/-- `_emit` after `_pieces = [..._pieces, piece]`: memory first, then the preferences. -/
def addPiece (env : Env) (piece : Piece) : Action Unit := do
  modify fun d => { d with pieces := d.pieces ++ [piece] }
  env.await .persistPieces
  modify fun d => { d with storage := { d.storage with pieceRecords := some d.pieces } }

/-- `_nextId`. -/
def pieceIdAt (now : DateTime) (seq : Nat) : String := s!"piece_{now.micros}_{seq}"

def importPiece (env : Env) (title sourcePath : String) (ownerName : Option String) :
    Action Piece := do
  let d ← get
  let id := pieceIdAt (env.clock .checksumPdf) d.pieceSeq
  modify fun d => { d with pieceSeq := d.pieceSeq + 1 }
  let (checksum, destPath) ← copyIntoPiecesStorage sha256 env id sourcePath
  let now := env.clock .persistPieces
  let piece : Piece := ⟨id, title, checksum, destPath, env.currentUserId, ownerName, [], now, now⟩
  addPiece env piece
  pure piece

/-- The collaborator that a registered piece starts with, if any. -/
def importedCollaborators (collaboratorId collaboratorName : Option String) :
    List Collaborator :=
  match collaboratorId with
  | none => []
  | some uid => [⟨uid, collaboratorName, none⟩]

def registerImportedPiece (env : Env) (pieceId title ownerId sourcePath : String)
    (collaboratorId ownerName collaboratorName : Option String) : Action Piece := do
  let d ← get
  if (d.findPiece pieceId).isSome then
    fail (.stateError s!"Piece already exists locally: {pieceId}")
  else do
    let (checksum, destPath) ← copyIntoPiecesStorage sha256 env pieceId sourcePath
    let now := env.clock .persistPieces
    let piece : Piece := ⟨pieceId, title, checksum, destPath, ownerId, ownerName,
      importedCollaborators collaboratorId collaboratorName, now, now⟩
    addPiece env piece
    pure piece

/-! ## What the operations do -/

variable (env : Env) {d : Device}

theorem exec_copyIntoPiecesStorage {sourcePath : String} {content : Content}
    (hsource : d.files.get sourcePath = some content) (id : String) :
    (copyIntoPiecesStorage sha256 env id sourcePath).exec d =
      if env.fails .checksumPdf then (.error (.platform .checksumPdf), d)
      else if env.fails .copyPdf then (.error (.platform .copyPdf), d)
      else (.ok (sha256 content, piecesPath env.documentsDirectory id sourcePath),
        { d with files :=
            d.files.set (piecesPath env.documentsDirectory id sourcePath) content }) := by
  cases hs : env.fails .checksumPdf <;> cases hc : env.fails .copyPdf <;>
    simp [copyIntoPiecesStorage, checksumOf, Env.await, exec_bind, hs, hc, hsource]

theorem keeps_copyIntoPiecesStorage {γ : Type} (view : Device → γ) (id sourcePath : String)
    (hfiles : ∀ (d : Device) files, view { d with files := files } = view d) :
    Keeps view (copyIntoPiecesStorage sha256 env id sourcePath) := by
  refine .bind (.bind (env.respects_await _ _) fun _ => .bind .get fun d =>
    .bind (.orFail _ _) fun content => .pure _) fun checksum => ?_
  refine .bind (env.respects_await _ _) fun _ => .bind .get fun d => ?_
  exact .bind (.orFail _ _) fun content => .bind (.modify fun d => hfiles d _) fun _ => .pure _

/-- A new piece either reaches the preferences or is held in memory only. -/
theorem exec_addPiece (piece : Piece) (d : Device) :
    (addPiece env piece).exec d =
      if env.fails .persistPieces then
        (.error (.platform .persistPieces), { d with pieces := d.pieces ++ [piece] })
      else (.ok (), { d with
        pieces := d.pieces ++ [piece]
        storage := { d.storage with pieceRecords := some (d.pieces ++ [piece]) } }) := by
  cases h : env.fails .persistPieces <;> simp [addPiece, Env.await, h]

/-- An import of a file adds at most one piece, under the id it generates, that is not shared. -/
theorem pieces_importPiece (title sourcePath : String) (ownerName : Option String) (d : Device) :
    ∀ piece ∈ ((importPiece sha256 env title sourcePath ownerName).exec d).2.pieces,
      piece ∈ d.pieces ∨ piece.id = pieceIdAt (env.clock .checksumPdf) d.pieceSeq ∧
        piece.collaborators = [] := by
  let counted : Device := { d with pieceSeq := d.pieceSeq + 1 }
  let id := pieceIdAt (env.clock .checksumPdf) d.pieceSeq
  have hkeeps : ((copyIntoPiecesStorage sha256 env id sourcePath).exec counted).2.pieces =
      d.pieces := keeps_copyIntoPiecesStorage sha256 env (fun d => d.pieces) id sourcePath
    (fun _ _ => rfl) counted
  intro piece hpiece
  rw [importPiece, exec_get_bind, exec_modify_bind, exec_bind] at hpiece
  rcases hcopy : (copyIntoPiecesStorage sha256 env id sourcePath).exec counted with
    ⟨e | ⟨checksum, destPath⟩, t⟩
  · rw [hcopy] at hpiece hkeeps
    exact .inl (hkeeps ▸ hpiece)
  · rw [hcopy] at hpiece hkeeps
    dsimp only at hpiece hkeeps
    rw [exec_bind, exec_addPiece] at hpiece
    have hadded : piece ∈ t.pieces ++ [⟨id, title, checksum, destPath, env.currentUserId,
        ownerName, [], env.clock .persistPieces, env.clock .persistPieces⟩] := by
      split_ifs at hpiece <;> exact hpiece
    rw [hkeeps, List.mem_append, List.mem_singleton] at hadded
    rcases hadded with hold | rfl
    · exact .inl hold
    · exact .inr ⟨rfl, rfl⟩

theorem importPiece_ok {title sourcePath : String} {ownerName : Option String} {d d' : Device}
    {piece : Piece}
    (h : (importPiece sha256 env title sourcePath ownerName).exec d = (.ok piece, d')) :
    d'.pieces = d.pieces ++ [piece] ∧ piece.ownerId = env.currentUserId := by
  rw [importPiece, exec_get_bind, exec_modify_bind, exec_bind_ok] at h
  obtain ⟨⟨checksum, destPath⟩, t, hcopy, h⟩ := h
  have hkeeps := keeps_copyIntoPiecesStorage sha256 env (fun d => d.pieces)
    (pieceIdAt (env.clock .checksumPdf) d.pieceSeq) sourcePath (fun _ _ => rfl)
    { d with pieceSeq := d.pieceSeq + 1 }
  rw [hcopy] at hkeeps
  dsimp only at hkeeps h
  rw [exec_bind_ok] at h
  obtain ⟨⟨⟩, u, hadd, hpure⟩ := h
  simp only [exec_pure, Prod.mk.injEq, Except.ok.injEq] at hpure
  obtain ⟨rfl, rfl⟩ := hpure
  rw [exec_addPiece] at hadd
  split_ifs at hadd
  · simp at hadd
  · obtain rfl := (Prod.mk.inj hadd).2
    exact ⟨by rw [← hkeeps], rfl⟩

/-- A new id is registered once its file has been copied. -/
theorem exec_registerImportedPiece {pieceId sourcePath : String} {content : Content}
    (hnew : d.findPiece pieceId = none) (hsource : d.files.get sourcePath = some content)
    (title ownerId : String) (collaboratorId ownerName collaboratorName : Option String) :
    (registerImportedPiece sha256 env pieceId title ownerId sourcePath collaboratorId ownerName
        collaboratorName).exec d =
      if env.fails .checksumPdf then (.error (.platform .checksumPdf), d)
      else if env.fails .copyPdf then (.error (.platform .copyPdf), d)
      else
        let destPath := piecesPath env.documentsDirectory pieceId sourcePath
        let now := env.clock .persistPieces
        let piece : Piece := ⟨pieceId, title, sha256 content, destPath, ownerId, ownerName,
          importedCollaborators collaboratorId collaboratorName, now, now⟩
        (addPiece env piece >>= fun _ => pure piece).exec
          { d with files := d.files.set destPath content } := by
  cases hs : env.fails .checksumPdf <;> cases hc : env.fails .copyPdf <;>
    simp [registerImportedPiece, hnew, exec_bind, exec_copyIntoPiecesStorage sha256 env hsource, hs, hc]

end

end Duet
