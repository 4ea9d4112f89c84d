import Duet.Device.Membership
import Duet.ReviewSync.Convergence
import Duet.ReviewSync.ManifestCodec
import Mathlib.Data.Set.Basic

/-!
# Recordings that nobody plays

The recordings of a piece's notes stay in the audio store until the piece is deleted, which deletes
those of the notes that it finds then. A note that has been tombstoned, or dropped with its author,
is not found, and its recording is not deleted with it.

## Main definitions

* `LocalPieceRepository.deletePiece`, `saveAudioNote` — what ends and begins with a recording.
* `NoteHistory.step` — the calls on one device that have to do with notes.
* `Device.Spares` — a call after which the store holds no recording that no live note has.

## Main results

* `spares_perform` — a call that drops no audible note spares the recordings.
* `leavesNone_of_spares` — in a run of such calls, a piece that is deleted leaves no recording.
-/

namespace Duet

open Lib Effect

/-! ## The calls -/

namespace LocalPieceRepository

/-- The loop of `deletePiece` over the notes; what a delete returns is not looked at. -/
def deleteRecordings (env : Env) : List AudioNote → Action Unit
  | [] => pure ()
  | note :: rest => do
    let _ ← (deleteAudio env note.audioAssetId).attempt
    deleteRecordings env rest

def deletePiece (env : Env) (pieceId : String) : Action Unit := do
  let piece ← requirePiece pieceId
  if env.currentUserId ≠ piece.ownerId then
    fail (.ownershipViolation pieceId (some "only the owner may delete a piece"))
  else do
    let annotations ← watchFirst pieceId
    deleteRecordings env annotations.audioNotes
    clearPiece env pieceId
    modify fun d => { d with pieces := d.pieces.filter fun piece => piece.id != pieceId }
    emitPieces env

end LocalPieceRepository

/-- A recording is stored, and a note saved that has it. -/
def saveAudioNote (env : Env) (pieceId sourcePath : String) (note : AudioNote) : Action Unit := do
  let assetId ← putAudio env 0 sourcePath
  addAudioNote env pieceId { note with audioAssetId := assetId, deletedAt := none }

/-- What happens on the device; a file is written by the recorder, or received. -/
inductive NoteEvent where
  | file (path : String) (content : Content)
  | saveAudioNote (env : Env) (pieceId sourcePath : String) (note : AudioNote)
  | addStroke (env : Env) (pieceId : String) (stroke : InkStroke)
  | deleteAudioNote (env : Env) (pieceId noteId : String)
  | removeCollaborator (env : Env) (pieceId userId : String)
  | leavePiece (env : Env) (pieceId : String)
  | importBundle (env : Env) (bundle : Option Archive)
  | deletePiece (env : Env) (pieceId : String)

def NoteEvent.perform (sha256 : Content → String) : NoteEvent → Action Unit
  | .file path content => modify fun d => { d with files := d.files.set path content }
  | .saveAudioNote env pieceId sourcePath note => Duet.saveAudioNote env pieceId sourcePath note
  | .addStroke env pieceId stroke => Duet.addStroke env pieceId stroke
  | .deleteAudioNote env pieceId noteId => Duet.deleteAudioNote env pieceId noteId
  | .removeCollaborator env pieceId userId =>
    LocalPieceRepository.removeCollaborator env pieceId userId
  | .leavePiece env pieceId => LocalPieceRepository.leavePiece env pieceId
  | .importBundle env bundle => do
    let _ ← Duet.importBundle sha256 env bundle
    pure ()
  | .deletePiece env pieceId => LocalPieceRepository.deletePiece env pieceId

/-- The piece that is deleted. -/
def NoteEvent.deletes? : NoteEvent → Option String
  | .deletePiece _ pieceId => some pieceId
  | _ => none

/-! ## The recordings of a piece -/

namespace Device

/-- The asset is in the audio store. -/
def Stores (d : Device) (assetId : String) : Prop := (d.audioAssets.get assetId).isSome = true

/-- The note is live and has its recording. -/
def Audible (d : Device) (note : AudioNote) : Prop :=
  note.isTombstoned = false ∧ d.Stores note.audioAssetId

/-- The notes of a piece, the tombstones among them. -/
def notesOf (d : Device) (pieceId : String) : List AudioNote :=
  (d.annotationsFor pieceId).audioNotes

instance (d : Device) (assetId : String) : Decidable (d.Stores assetId) := by
  unfold Stores
  infer_instance

instance (d : Device) (note : AudioNote) : Decidable (d.Audible note) := by
  unfold Audible
  infer_instance

end Device

/-- The device; the assets of each piece that a note of it has had in the store; and the piece that
has just been deleted. -/
structure NoteHistory where
  device : Device
  recorded : Set (String × String)
  deleted : Option String

namespace NoteHistory

/-- Pieces without notes, and files. -/
def start (pieces : List Piece) (files : Assoc String Content) : NoteHistory :=
  ⟨{ Device.fresh with pieces, files }, ∅, none⟩

def step (sha256 : Content → String) (s : NoteHistory) (e : NoteEvent) : Option NoteHistory :=
  let left := (e.perform sha256).exec s.device
  some {
    device := left.2
    recorded := s.recorded ∪
      {r | left.2.Stores r.2 ∧ ∃ note ∈ left.2.notesOf r.1, note.audioAssetId = r.2}
    deleted := match left.1 with
      | .ok _ => e.deletes?
      | .error _ => none }

/-- No note is dropped that is audible, but by what deletes its recording: an import of its author's
notes, which stores its own for live notes only, or the deletion of its piece. -/
def DropsNone (sha256 : Content → String) (s : NoteHistory) : NoteEvent → Prop
  | .deleteAudioNote env pieceId noteId =>
    ((s.device.notesOf pieceId).find? fun n => n.id == noteId && !n.isTombstoned).map
        (·.authorId) = some env.currentUserId →
      ∀ note ∈ s.device.notesOf pieceId, note.id = noteId → ¬s.device.Audible note
  | .removeCollaborator env pieceId userId => ∀ piece ∈ s.device.findPiece pieceId,
      env.currentUserId = piece.ownerId → piece.isCollaborator userId = true →
        env.fails .persistPieces = false → ∀ note ∈ s.device.notesOf pieceId,
          note.authorId = userId → ¬s.device.Audible note
  | .leavePiece env pieceId => ∀ piece ∈ s.device.findPiece pieceId,
      env.currentUserId ≠ piece.ownerId → piece.isCollaborator env.currentUserId = true →
        env.fails .persistPieces = false → ∀ note ∈ s.device.notesOf pieceId,
          note.authorId = env.currentUserId → ¬s.device.Audible note
  | .importBundle env bundle => ∀ opening ∈ opened? env bundle,
    ReplacesSlice sha256 env opening.1 opening.2 s.device →
      (∀ entry ∈ opening.2.audioEntries, entry.audioFile.isSome = true →
        entry.note.isTombstoned = false) ∧
      ∀ note ∈ s.device.notesOf opening.2.pieceId, note.authorId = opening.2.authorId →
        s.device.Audible note → env.fails .persistAnnotations = false ∧
          env.fails (.deleteAsset note.audioAssetId) = false
  | .deletePiece env pieceId => ∀ piece ∈ s.device.findPiece pieceId,
    env.currentUserId = piece.ownerId → ∀ note ∈ s.device.notesOf pieceId,
      s.device.Audible note → env.fails (.deleteAsset note.audioAssetId) = false
  | _ => True

end NoteHistory

/-! ## Calls that spare the recordings -/

namespace Device

/-- Some live note of the piece has the asset. -/
def Has (d : Device) (pieceId assetId : String) : Prop :=
  ∃ note ∈ d.notesOf pieceId, note.isTombstoned = false ∧ note.audioAssetId = assetId

/-- The store has come up with the id. -/
def Made (d : Device) (assetId : String) : Prop :=
  ∃ now n, assetId = audioId now n ∧ n < d.audioSeq

/-- The store has come up with the id since. -/
def MadeSince (d t : Device) (assetId : String) : Prop :=
  ∃ now n, assetId = audioId now n ∧ d.audioSeq ≤ n ∧ n < t.audioSeq

/-- What is stored is new, or was there; a note has the asset of an old one, none, or is live and has
a new one; and what a live note had and is still there some live note has. -/
structure Spares (d t : Device) : Prop where
  counter : d.audioSeq ≤ t.audioSeq
  stored : ∀ assetId, t.Stores assetId → d.Stores assetId ∨ d.MadeSince t assetId
  noted : ∀ pieceId, ∀ note ∈ t.notesOf pieceId, note.audioAssetId = "" ∨
    (∃ old ∈ d.notesOf pieceId, old.audioAssetId = note.audioAssetId) ∨
      note.isTombstoned = false ∧ d.MadeSince t note.audioAssetId
  has : ∀ pieceId assetId, d.Stores assetId → t.Stores assetId → d.Has pieceId assetId →
    t.Has pieceId assetId

theorem Made.mono {d t : Device} {assetId : String} (h : d.Made assetId)
    (hcounter : d.audioSeq ≤ t.audioSeq) : t.Made assetId := by
  obtain ⟨now, n, hid, hlt⟩ := h
  exact ⟨now, n, hid, hlt.trans_le hcounter⟩

theorem MadeSince.made {d t : Device} {assetId : String} (h : d.MadeSince t assetId) :
    t.Made assetId := by
  obtain ⟨now, n, hid, -, hlt⟩ := h
  exact ⟨now, n, hid, hlt⟩

/-- What is new was not there. -/
theorem Made.not_madeSince {d t : Device} {assetId : String} (h : d.Made assetId) :
    ¬d.MadeSince t assetId := by
  rintro ⟨now', n', hid', hle, -⟩
  obtain ⟨now, n, hid, hlt⟩ := h
  have heq := audioId_injective_seq (hid.symm.trans hid')
  omega

theorem audioId_ne_empty (now : DateTime) (n : Nat) : audioId now n ≠ "" := by
  intro hid
  have hlists := congrArg String.toList hid
  simp [audioId] at hlists

theorem Made.ne_empty {d : Device} {assetId : String} (h : d.Made assetId) : assetId ≠ "" := by
  obtain ⟨now, n, rfl, -⟩ := h
  exact audioId_ne_empty now n

end Device

namespace NoteHistory

/-- The store holds what it has come up with, the notes have that or none, and what is in the store
of what a piece's notes have had some live note of it has. -/
structure Inv (s : NoteHistory) : Prop where
  stored : ∀ assetId, s.device.Stores assetId → s.device.Made assetId
  noted : ∀ pieceId, ∀ note ∈ s.device.notesOf pieceId,
    note.audioAssetId = "" ∨ s.device.Made note.audioAssetId
  made : ∀ r ∈ s.recorded, s.device.Made r.2
  recorded : ∀ pieceId, ∀ note ∈ s.device.notesOf pieceId, s.device.Stores note.audioAssetId →
    (pieceId, note.audioAssetId) ∈ s.recorded
  has : ∀ r ∈ s.recorded, s.device.Stores r.2 → s.device.Has r.1 r.2
  deleted : ∀ pieceId ∈ s.deleted, s.device.notesOf pieceId = []

theorem inv_start (pieces : List Piece) (files : Assoc String Content) :
    (start pieces files).Inv := by
  have hstores : ∀ assetId, ¬(start pieces files).device.Stores assetId := fun _ =>
    Bool.false_ne_true
  have hnotes : ∀ pieceId, (start pieces files).device.notesOf pieceId = [] := fun _ => rfl
  refine ⟨fun assetId h => absurd h (hstores assetId), ?_, fun r hr => absurd hr (by simp [start]), ?_,
    fun r hr => absurd hr (by simp [start]), fun pieceId _ => hnotes pieceId⟩ <;> simp [hnotes]

/-- What spares the recordings keeps what links them with the notes. -/
theorem Inv.spares {s : NoteHistory} (h : s.Inv) {t : Device} (hspares : s.device.Spares t)
    {deleted : Option String} (hdeleted : ∀ pieceId ∈ deleted, t.notesOf pieceId = []) :
    Inv ⟨t, s.recorded ∪ {r | t.Stores r.2 ∧ ∃ note ∈ t.notesOf r.1, note.audioAssetId = r.2},
      deleted⟩ := by
  have hmade : ∀ assetId, t.Stores assetId → t.Made assetId := fun assetId hstored =>
    (hspares.stored assetId hstored).elim
      (fun hold => (h.stored assetId hold).mono hspares.counter) (·.made)
  -- what was made before and is in the store was in it
  have hold : ∀ assetId, s.device.Made assetId → t.Stores assetId → s.device.Stores assetId :=
    fun assetId hbefore hstored => (hspares.stored assetId hstored).resolve_right hbefore.not_madeSince
  have hhas : ∀ r ∈ s.recorded, t.Stores r.2 → t.Has r.1 r.2 := fun r hr hstored =>
    have hbefore := hold _ (h.made r hr) hstored
    hspares.has _ _ hbefore hstored (h.has r hr hbefore)
  refine ⟨hmade, fun pieceId note hnote => ?_, ?_, fun pieceId note hnote hstored => ?_, ?_, hdeleted⟩
  · obtain hnone | ⟨old, hmem, heq⟩ | ⟨-, hnew⟩ := hspares.noted pieceId note hnote
    · exact .inl hnone
    · rw [← heq]
      exact (h.noted pieceId old hmem).imp_right (·.mono hspares.counter)
    · exact .inr hnew.made
  · rintro r (hr | ⟨hstored, -⟩)
    · exact (h.made r hr).mono hspares.counter
    · exact hmade _ hstored
  · exact .inr ⟨hstored, note, hnote, rfl⟩
  · rintro ⟨pieceId, assetId⟩ (hr | ⟨-, note, hnote, rfl⟩) hstored
    · exact hhas _ hr hstored
    · obtain hnone | ⟨old, hmem, heq⟩ | ⟨hlive, -⟩ := hspares.noted pieceId note hnote
      · exact absurd hnone (hmade _ hstored).ne_empty
      · -- the note has the asset of an old one, which was in the store and so has been recorded
        dsimp only at hstored ⊢
        rw [← heq] at hstored ⊢
        obtain hnone | hbefore := h.noted pieceId old hmem
        · exact absurd hnone (hmade _ hstored).ne_empty
        · exact hhas _ (h.recorded pieceId old hmem (hold _ hbefore hstored)) hstored
      · exact ⟨note, hnote, hlive, rfl⟩

end NoteHistory

/-! ## What the calls do -/

section

variable {env : Env} {d t : Device} {pieceId : String} {a : PieceAnnotations}

/-- The store stays, and of each piece's notes every audible one. -/
theorem Device.Spares.of_notes (hassets : t.audioAssets = d.audioAssets)
    (hseq : t.audioSeq = d.audioSeq)
    (hnoted : ∀ pieceId, ∀ note ∈ t.notesOf pieceId, ∃ old ∈ d.notesOf pieceId,
      old.audioAssetId = note.audioAssetId)
    (hhas : ∀ pieceId, ∀ note ∈ d.notesOf pieceId, d.Audible note →
      t.Has pieceId note.audioAssetId) : d.Spares t where
  counter := hseq.ge
  stored assetId hstored := by
    rw [Stores, hassets] at hstored
    exact .inl hstored
  noted pieceId note hnote := .inr (.inl (hnoted pieceId note hnote))
  has pieceId assetId hstored _ hold := by
    obtain ⟨note, hnote, hlive, rfl⟩ := hold
    exact hhas pieceId note hnote ⟨hlive, hstored⟩

/-- The notes are not touched. -/
theorem Device.Spares.of_same (hassets : t.audioAssets = d.audioAssets)
    (hseq : t.audioSeq = d.audioSeq) (hnotes : ∀ pieceId, t.notesOf pieceId = d.notesOf pieceId) :
    d.Spares t :=
  .of_notes hassets hseq (fun pieceId note hnote => ⟨note, hnotes pieceId ▸ hnote, rfl⟩)
    fun pieceId note hnote haudible => ⟨note, (hnotes pieceId).symm ▸ hnote, haudible.1, rfl⟩

theorem Device.Spares.refl (d : Device) : d.Spares d := .of_same rfl rfl fun _ => rfl

theorem notesOf_emitAnnotations (env : Env) (d : Device) (pieceId : String) (a : PieceAnnotations)
    (q : String) :
    ((emitAnnotations env pieceId a).exec
      (d.cacheAnnotations pieceId (d.annotationsFor pieceId))).2.notesOf q =
        if q = pieceId then a.audioNotes else d.notesOf q := by
  rw [Device.notesOf, annotationsFor_emitAnnotations, Device.annotationsFor_cacheAnnotations_self]
  split_ifs <;> rfl

/-- The store stays when annotations are written. -/
theorem store_emitAnnotations (env : Env) (d : Device) (pieceId : String) (a : PieceAnnotations) :
    ((emitAnnotations env pieceId a).exec
        (d.cacheAnnotations pieceId (d.annotationsFor pieceId))).2.audioAssets = d.audioAssets ∧
      ((emitAnnotations env pieceId a).exec
        (d.cacheAnnotations pieceId (d.annotationsFor pieceId))).2.audioSeq = d.audioSeq := by
  rw [exec_emitAnnotations]
  split_ifs <;> exact ⟨rfl, rfl⟩

/-- The annotations of a piece are written: their notes have the assets of old ones, and every
audible one is kept. -/
theorem Device.Spares.emit
    (hnoted : ∀ note ∈ a.audioNotes, ∃ old ∈ d.notesOf pieceId,
      old.audioAssetId = note.audioAssetId)
    (hhas : ∀ note ∈ d.notesOf pieceId, d.Audible note → ∃ new ∈ a.audioNotes,
      new.isTombstoned = false ∧ new.audioAssetId = note.audioAssetId) :
    d.Spares ((emitAnnotations env pieceId a).exec
      (d.cacheAnnotations pieceId (d.annotationsFor pieceId))).2 := by
  obtain ⟨hassets, hseq⟩ := store_emitAnnotations env d pieceId a
  refine .of_notes hassets hseq (fun q note hnote => ?_) fun q note hnote haudible => ?_
  · rw [notesOf_emitAnnotations] at hnote
    split_ifs at hnote with hq
    · exact hq ▸ hnoted note hnote
    · exact ⟨note, hnote, rfl⟩
  · unfold Has
    rw [notesOf_emitAnnotations]
    split_ifs with hq
    · exact hhas note (hq ▸ hnote) haudible
    · exact ⟨note, hnote, haudible.1, rfl⟩

theorem Device.Spares.cached (d : Device) (pieceId : String) :
    d.Spares (d.cacheAnnotations pieceId (d.annotationsFor pieceId)) :=
  .of_same rfl rfl fun q => by
    rw [Device.notesOf, Device.annotationsFor_cacheAnnotations_self]
    rfl

theorem spares_addStroke (env : Env) (pieceId : String) (stroke : InkStroke) (d : Device) :
    d.Spares ((addStroke env pieceId stroke).exec d).2 := by
  rw [addStroke]
  split_ifs
  · exact .refl d
  · obtain ⟨layer, hlayer, -⟩ := exec_layerWithStroke (d.annotationsFor pieceId) pieceId stroke
      (d.cacheAnnotations pieceId (d.annotationsFor pieceId))
    rw [exec_bind_of_ok (exec_loadAnnotations pieceId d), exec_bind_of_ok hlayer]
    exact .emit (fun note hnote => ⟨note, hnote, rfl⟩)
      fun note hnote haudible => ⟨note, hnote, haudible.1, rfl⟩

/-- A note is tombstoned that is not audible. -/
theorem spares_deleteAudioNote {noteId : String}
    (h : ((d.notesOf pieceId).find? fun n => n.id == noteId && !n.isTombstoned).map
        (·.authorId) = some env.currentUserId →
      ∀ note ∈ d.notesOf pieceId, note.id = noteId → ¬d.Audible note) :
    d.Spares ((deleteAudioNote env pieceId noteId).exec d).2 := by
  rw [deleteAudioNote, exec_bind_of_ok (exec_loadAnnotations pieceId d)]
  cases hfind : (d.annotationsFor pieceId).audioNotes.find? fun n =>
    n.id == noteId && !n.isTombstoned with
  | none => exact .cached d pieceId
  | some found =>
    dsimp only
    split_ifs with hauthor
    · exact .cached d pieceId
    · have hsilent := h (by rw [Device.notesOf, hfind, Option.map_some, not_not.mp hauthor])
      refine .emit (fun note hnote => ?_) fun note hnote haudible => ?_
      · obtain ⟨old, hold, rfl⟩ := List.mem_map.mp hnote
        refine ⟨old, hold, ?_⟩
        split_ifs <;> rfl
      · have hne : note.id ≠ noteId := fun heq => hsilent note hnote heq haudible
        exact ⟨note, List.mem_map.mpr ⟨note, hnote, if_neg hne⟩, haudible.1, rfl⟩

/-- The notes of an author are dropped, none of which is audible. -/
theorem spares_removeAuthorSlice {authorId : String}
    (h : ∀ note ∈ d.notesOf pieceId, note.authorId = authorId → ¬d.Audible note) :
    d.Spares ((removeAuthorSlice env pieceId authorId).exec d).2 := by
  rw [removeAuthorSlice, exec_bind_of_ok (exec_loadAnnotations pieceId d)]
  refine .emit (fun note hnote => ⟨note, List.mem_of_mem_filter hnote, rfl⟩)
    fun note hnote haudible => ⟨note, List.mem_filter.mpr ⟨hnote, ?_⟩, haudible.1, rfl⟩
  simpa using fun hauthor => h note hnote hauthor haudible

namespace LocalPieceRepository

theorem exec_emitPieces (env : Env) (d : Device) : (emitPieces env).exec d =
    if env.fails .persistPieces then (.error (.platform .persistPieces), d)
    else (.ok (), { d with storage := { d.storage with pieceRecords := some d.pieces } }) := by
  cases h : env.fails .persistPieces <;> simp [emitPieces, Env.await, h]

/-- A participant is taken off, and none of their notes is audible. -/
theorem spares_without {piece : Piece} {userId : String} {now : DateTime}
    (h : env.fails .persistPieces = false → ∀ note ∈ d.notesOf pieceId, note.authorId = userId →
      ¬d.Audible note) :
    d.Spares ((do
      modify fun d => d.replacePiece (piece.without userId now)
      emitPieces env
      removeAuthorSlice env pieceId userId : Action Unit).exec d).2 := by
  rw [exec_modify_bind]
  cases hpersist : env.fails .persistPieces with
  | true =>
    rw [exec_bind_of_error (by rw [exec_emitPieces, hpersist, if_pos rfl])]
    exact .of_same rfl rfl fun _ => rfl
  | false =>
    rw [exec_bind_of_ok (by rw [exec_emitPieces, hpersist, if_neg Bool.false_ne_true])]
    -- the notes and the store are the same with the participant taken off
    let off : Device := d.replacePiece (piece.without userId now)
    let stored : Device := { off with storage := { off.storage with pieceRecords := some off.pieces } }
    have hspares : stored.Spares ((removeAuthorSlice env pieceId userId).exec stored).2 :=
      spares_removeAuthorSlice (h hpersist)
    exact ⟨hspares.counter, hspares.stored, hspares.noted, hspares.has⟩

theorem spares_removeCollaborator {userId : String}
    (h : ∀ piece ∈ d.findPiece pieceId, env.currentUserId = piece.ownerId →
      piece.isCollaborator userId = true → env.fails .persistPieces = false →
        ∀ note ∈ d.notesOf pieceId, note.authorId = userId → ¬d.Audible note) :
    d.Spares ((removeCollaborator env pieceId userId).exec d).2 := by
  rw [removeCollaborator, exec_bind, exec_requirePiece]
  cases hpiece : d.findPiece pieceId with
  | none => exact .refl d
  | some piece =>
    dsimp only
    split_ifs with howner hmember
    · exact .refl d
    · exact .refl d
    · exact spares_without (h piece hpiece (not_not.mp howner) (by simpa using hmember))

theorem spares_leavePiece
    (h : ∀ piece ∈ d.findPiece pieceId, env.currentUserId ≠ piece.ownerId →
      piece.isCollaborator env.currentUserId = true → env.fails .persistPieces = false →
        ∀ note ∈ d.notesOf pieceId, note.authorId = env.currentUserId → ¬d.Audible note) :
    d.Spares ((leavePiece env pieceId).exec d).2 := by
  rw [leavePiece, exec_bind, exec_requirePiece]
  cases hpiece : d.findPiece pieceId with
  | none => exact .refl d
  | some piece =>
    dsimp only
    split_ifs with howner hmember
    · exact .refl d
    · exact .refl d
    · exact spares_without (h piece hpiece howner (by simpa using hmember))

end LocalPieceRepository

/-- A recording is stored under a new id, or nothing is. -/
theorem exec_putAudio_cases (env : Env) (i : Nat) (sourcePath : String) (d : Device) :
    (∃ e, (putAudio env i sourcePath).exec d = (.error e, { d with audioSeq := d.audioSeq + 1 })) ∨
      ∃ assetId asset, d.MadeSince { d with audioSeq := d.audioSeq + 1 } assetId ∧
        (putAudio env i sourcePath).exec d = (.ok assetId, { d with
          audioSeq := d.audioSeq + 1
          audioAssets := d.audioAssets.set assetId asset }) := by
  cases hsource : d.files.get sourcePath with
  | none =>
    cases hput : env.fails (.putAudio i) <;>
      exact .inl ⟨_, by simp [putAudio, exec_bind, Env.await, hput, hsource]; rfl⟩
  | some content =>
    have hexec := exec_putAudio env hsource i
    cases hput : env.fails (.putAudio i) with
    | true =>
      rw [hput, if_pos rfl] at hexec
      exact .inl ⟨_, hexec⟩
    | false =>
      rw [hput, if_neg Bool.false_ne_true] at hexec
      exact .inr ⟨_, _, ⟨_, d.audioSeq, rfl, le_rfl, Nat.lt_succ_self _⟩, hexec⟩

/-- A note is saved with a recording of its own, and is live. -/
theorem spares_saveAudioNote (env : Env) (pieceId sourcePath : String) (note : AudioNote)
    (d : Device) : d.Spares ((saveAudioNote env pieceId sourcePath note).exec d).2 := by
  rw [saveAudioNote]
  obtain ⟨e, hput⟩ | ⟨assetId, asset, hmade, hput⟩ := exec_putAudio_cases env 0 sourcePath d
  · rw [exec_bind_of_error hput]
    exact ⟨Nat.le_succ _, fun _ => .inl, fun _ note hnote => .inr (.inl ⟨note, hnote, rfl⟩),
      fun _ _ _ _ => id⟩
  rw [exec_bind_of_ok hput]
  let stored : Device := { d with
    audioSeq := d.audioSeq + 1
    audioAssets := d.audioAssets.set assetId asset }
  have hstores : ∀ id, stored.Stores id → d.Stores id ∨ d.MadeSince stored id := by
    intro id hid
    by_cases heq : id = assetId
    · exact .inr (heq ▸ hmade)
    · rw [Device.Stores, show stored.audioAssets = d.audioAssets.set assetId asset from rfl,
        Assoc.get_set_of_ne _ heq] at hid
      exact .inl hid
  rw [addAudioNote]
  split_ifs
  · exact ⟨Nat.le_succ _, hstores, fun _ note hnote => .inr (.inl ⟨note, hnote, rfl⟩),
      fun _ _ _ _ => id⟩
  rw [exec_bind_of_ok (exec_loadAnnotations pieceId stored)]
  have hstore := store_emitAnnotations env stored pieceId
  have hnotes := notesOf_emitAnnotations env stored pieceId
  constructor
  · rw [(hstore _).2]
    exact Nat.le_succ _
  · intro id hid
    rw [Device.Stores, (hstore _).1] at hid
    unfold Device.MadeSince
    rw [(hstore _).2]
    exact hstores id hid
  · intro q other hother
    rw [hnotes] at hother
    unfold Device.MadeSince
    rw [(hstore _).2]
    split_ifs at hother with hq
    · obtain hold | hnew := List.mem_append.mp hother
      · exact .inr (.inl ⟨other, hq ▸ hold, rfl⟩)
      · obtain rfl := List.mem_singleton.mp hnew
        exact .inr (.inr ⟨rfl, hmade⟩)
    · exact .inr (.inl ⟨other, hother, rfl⟩)
  · rintro q id - - ⟨other, hother, hlive, hid⟩
    refine ⟨other, ?_, hlive, hid⟩
    rw [hnotes]
    split_ifs with hq
    · exact List.mem_append_left _ (hq ▸ hother)
    · exact hother

namespace LocalPieceRepository

/-- The loop over the notes is one over their assets, and never fails. -/
theorem deleteRecordings_eq (env : Env) (notes : List AudioNote) :
    deleteRecordings env notes = deleteStaleAssets env (notes.map (·.audioAssetId)) := by
  induction notes with
  | nil => rfl
  | cons note rest ih =>
    rw [deleteRecordings, ih]
    rfl

/-- What the owner's deletion leaves of the notes and of the store, however it ends. -/
theorem exec_deletePiece (env : Env) {piece : Piece} (hpiece : d.findPiece pieceId = some piece)
    (howner : env.currentUserId = piece.ownerId) :
    ((deletePiece env pieceId).exec d).2.audioAssets = keptAssets env
        ((d.annotationsFor pieceId).withoutTombstones.audioNotes.map (·.audioAssetId))
        d.audioAssets ∧
      ((deletePiece env pieceId).exec d).2.audioSeq = d.audioSeq ∧
      ∀ q, ((deletePiece env pieceId).exec d).2.notesOf q =
        if q = pieceId then [] else d.notesOf q := by
  let live := (d.annotationsFor pieceId).withoutTombstones
  let silent : Device := { d.cacheAnnotations pieceId (d.annotationsFor pieceId) with
    audioAssets := keptAssets env (live.audioNotes.map (·.audioAssetId)) d.audioAssets }
  have hexec : (deletePiece env pieceId).exec d = (do
      clearPiece env pieceId
      modify fun d => { d with pieces := d.pieces.filter fun piece => piece.id != pieceId }
      emitPieces env : Action Unit).exec silent := by
    rw [deletePiece, exec_bind, exec_requirePiece, hpiece]
    dsimp only
    rw [if_neg (not_not.mpr howner), exec_bind_of_ok (exec_watchFirst pieceId d),
      deleteRecordings_eq, exec_bind_of_ok (exec_deleteStaleAssets _ _ _)]
    rfl
  -- from the first write on, the notes read are those of the emptied cache
  have hnotes : ∀ (e : Device), e.annotationCache = silent.annotationCache.set pieceId (.empty pieceId) →
      (∀ q, q ≠ pieceId → e.storage.annotations.get q = d.storage.annotations.get q) →
        ∀ q, e.notesOf q = if q = pieceId then [] else d.notesOf q := by
    intro e hcache hstored q
    rw [Device.notesOf, Device.annotationsFor, hcache]
    split_ifs with hq
    · rw [hq, Assoc.get_set_self]
      rfl
    · rw [Assoc.get_set_of_ne _ hq, hstored q hq]
      have hsame := Device.annotationsFor_cacheAnnotations_self d pieceId q
      rw [Device.annotationsFor] at hsame
      exact congrArg (·.audioNotes) hsame
  rw [hexec, clearPiece, exec_bind, exec_modify_bind]
  cases hclear : env.fails .persistAnnotations with
  | true =>
    rw [exec_bind_of_error (Env.exec_await_of_fails hclear _)]
    exact ⟨rfl, rfl, hnotes _ rfl fun _ _ => rfl⟩
  | false =>
    rw [exec_bind_of_ok (Env.exec_await_of_not_fails hclear _), exec_modify]
    dsimp only
    rw [exec_modify_bind, exec_emitPieces]
    split_ifs <;> exact ⟨rfl, rfl, hnotes _ rfl fun _ hne => Assoc.get_erase_of_ne _ hne⟩

/-- The owner's deletion deletes the recording of every audible note. -/
theorem spares_deletePiece
    (h : ∀ piece ∈ d.findPiece pieceId, env.currentUserId = piece.ownerId →
      ∀ note ∈ d.notesOf pieceId, d.Audible note →
        env.fails (.deleteAsset note.audioAssetId) = false) :
    d.Spares ((deletePiece env pieceId).exec d).2 := by
  cases hpiece : d.findPiece pieceId with
  | none =>
    rw [deletePiece, exec_bind, exec_requirePiece, hpiece]
    exact .refl d
  | some piece =>
    by_cases howner : env.currentUserId = piece.ownerId
    · obtain ⟨hassets, hseq, hnotes⟩ := exec_deletePiece env hpiece howner
      have hstores : ∀ id, ((deletePiece env pieceId).exec d).2.Stores id → d.Stores id := by
        intro id hid
        rw [Device.Stores, hassets, get_keptAssets] at hid
        split_ifs at hid
        · cases hid
        · exact hid
      refine ⟨hseq.ge, fun id hid => .inl (hstores id hid), fun q note hnote => ?_,
        fun q id hbefore hafter hhas => ?_⟩
      · rw [hnotes] at hnote
        split_ifs at hnote
        · cases hnote
        · exact .inr (.inl ⟨note, hnote, rfl⟩)
      · obtain ⟨note, hnote, hlive, rfl⟩ := hhas
        by_cases hq : q = pieceId
        · subst hq
          -- the recording of a live note is one of those that are deleted
          rw [Device.Stores, hassets, get_keptAssets, if_pos] at hafter
          · cases hafter
          · refine ⟨List.mem_map.mpr ⟨note, List.mem_filter.mpr ⟨hnote, ?_⟩, rfl⟩,
              h piece hpiece howner note hnote ⟨hlive, hbefore⟩⟩
            simpa using hlive
        · refine ⟨note, ?_, hlive, rfl⟩
          rw [hnotes, if_neg hq]
          exact hnote
    · rw [deletePiece, exec_bind, exec_requirePiece, hpiece]
      dsimp only
      rw [if_pos howner]
      exact .refl d

/-- A piece that has been deleted has no notes left. -/
theorem notesOf_deletePiece {u : Unit} (h : (deletePiece env pieceId).exec d = (.ok u, t)) :
    t.notesOf pieceId = [] := by
  cases hpiece : d.findPiece pieceId with
  | none =>
    rw [deletePiece, exec_bind, exec_requirePiece, hpiece] at h
    cases h
  | some piece =>
    by_cases howner : env.currentUserId = piece.ownerId
    · have hnotes := (exec_deletePiece env hpiece howner).2.2 pieceId
      rwa [h, if_pos rfl] at hnotes
    · rw [deletePiece, exec_bind, exec_requirePiece, hpiece] at h
      dsimp only at h
      rw [if_pos howner] at h
      cases h

end LocalPieceRepository

end

/-! ## What an import does -/

namespace Device

/-- What is stored is new, or was there. -/
structure Adds (d t : Device) : Prop where
  counter : d.audioSeq ≤ t.audioSeq
  stored : ∀ assetId, t.Stores assetId → d.Stores assetId ∨ d.MadeSince t assetId

instance : Std.Refl Adds := ⟨fun _ => ⟨le_rfl, fun _ => .inl⟩⟩

instance : IsTrans Device Adds where
  trans d t u hdt htu := by
    refine ⟨hdt.counter.trans htu.counter, fun assetId hstored => ?_⟩
    obtain hold | ⟨now, n, hid, hle, hlt⟩ := htu.stored assetId hstored
    · exact (hdt.stored assetId hold).imp_right fun ⟨now, n, hid, hle, hlt⟩ =>
        ⟨now, n, hid, hle, hlt.trans_le htu.counter⟩
    · exact .inr ⟨now, n, hid, hdt.counter.trans hle, hlt⟩

/-- The store stays, or loses assets. -/
structure Erases (d t : Device) : Prop where
  counter : t.audioSeq = d.audioSeq
  stored : ∀ assetId, t.Stores assetId → d.Stores assetId

instance : Std.Refl Erases := ⟨fun _ => ⟨rfl, fun _ => id⟩⟩

instance : IsTrans Device Erases where
  trans _ _ _ hdt htu := ⟨htu.counter.trans hdt.counter, fun assetId hstored =>
    hdt.stored assetId (htu.stored assetId hstored)⟩

theorem Erases.of_same {d t : Device} (hseq : t.audioSeq = d.audioSeq)
    (hassets : t.audioAssets = d.audioAssets) : d.Erases t :=
  ⟨hseq, fun assetId hstored => by rwa [Stores, hassets] at hstored⟩

theorem Erases.adds {d t : Device} (h : d.Erases t) : d.Adds t :=
  ⟨h.counter.ge, fun assetId hstored => .inl (h.stored assetId hstored)⟩

end Device

section

open Device

variable {sha256 : Content → String} {env : Env} {archive : Archive} {manifest : ReviewManifest}
  {bundle : Option Archive} {d : Device}

theorem adds_putAudio (env : Env) (i : Nat) (sourcePath : String) :
    Respects Adds (putAudio env i sourcePath) := by
  intro d
  obtain ⟨e, hput⟩ | ⟨assetId, asset, hmade, hput⟩ := exec_putAudio_cases env i sourcePath d
  · rw [hput]
    exact ⟨Nat.le_succ _, fun _ => .inl⟩
  · rw [hput]
    refine ⟨Nat.le_succ _, fun id hid => ?_⟩
    by_cases heq : id = assetId
    · exact .inr (heq ▸ hmade)
    · dsimp only at hid
      rw [Stores, Assoc.get_set_of_ne _ heq] at hid
      exact .inl hid

theorem adds_writeFile (env : Env) (step : Step) (path : String) (content : Content) :
    Respects Adds (writeFile env step path content) :=
  .bind (env.respects_await _ _) fun _ => .modify fun _ => Erases.adds (.of_same rfl rfl)

theorem adds_deleteIfPresent (env : Env) (step : Step) (path : String) :
    Respects Adds (deleteIfPresent env step path) := by
  intro d
  obtain ⟨r, files, hexec⟩ := exec_deleteIfPresent env step path d
  rw [hexec]
  exact Erases.adds (.of_same rfl rfl)

theorem adds_restoreNote (env : Env) (archive : Archive) (i : Nat) (entry : ManifestAudioEntry) :
    Respects Adds (restoreNote env archive i entry) := by
  unfold restoreNote
  cases entry.audioFile with
  | none => exact .pure _
  | some audioFile =>
    refine .bind (.orFail _ _) fun content => .bind (adds_writeFile _ _ _ _) fun _ =>
      .bind (adds_putAudio _ _ _).attempt fun putResult =>
        .bind (adds_deleteIfPresent _ _ _) fun _ => ?_
    cases putResult with
    | error error => exact .fail _
    | ok assetId => exact .pure _

theorem adds_restoreAudio (env : Env) (archive : Archive) (i : Nat)
    (entries : List ManifestAudioEntry) : Respects Adds (restoreAudio env archive i entries) := by
  induction entries generalizing i with
  | nil => exact .pure _
  | cons entry rest ih =>
    exact .bind (adds_restoreNote _ _ _ _) fun _ => .bind (ih _) fun _ => .pure _

theorem erases_finishImport (env : Env) (manifest : ReviewManifest) (piece : Piece)
    (notes : List AudioNote) : Respects Erases (finishImport env manifest piece notes) := by
  have hcached : ∀ (d : Device) pieceId a, d.Erases (d.cacheAnnotations pieceId a) :=
    fun _ _ _ => .of_same rfl rfl
  have hreplace : ∀ pieceId authorId role strokes notes,
      Respects Erases (replaceAuthorSlice env pieceId authorId role strokes notes) := by
    intro pieceId authorId role strokes notes d
    rw [exec_replaceAuthorSlice]
    dsimp only
    split_ifs <;> exact .of_same rfl rfl
  have hdelete : ∀ stale, Respects Erases (deleteStaleAssets env stale) := by
    intro stale d
    rw [exec_deleteStaleAssets]
    refine ⟨rfl, fun id hid => ?_⟩
    dsimp only at hid
    rw [Stores, get_keptAssets] at hid
    split_ifs at hid
    · cases hid
    · exact hid
  have hreport : ∀ live, Respects Erases (reportImport env manifest piece live) := by
    intro live d
    obtain ⟨r, hexec, -⟩ := exec_reportImport env manifest piece live d
    rw [hexec]
    exact .of_same rfl rfl
  exact .bind (fun d => hcached d _ _) fun _ => .bind (hreplace _ _ _ _ _) fun _ =>
    .bind (hdelete _) fun _ => .bind (.bind (env.respects_await _ _) fun _ =>
      .modify fun _ => .of_same rfl rfl) fun _ => hreport _

theorem adds_applyManifest (env : Env) (archive : Archive) (manifest : ReviewManifest)
    (piece : Piece) : Respects Adds (applyManifest env archive manifest piece) :=
  .bind (env.respects_await _ _) fun _ => .bind (adds_restoreAudio _ _ _ _) fun _ d =>
    (erases_finishImport _ _ _ _ d).adds

/-- With its recordings restored, the import has come up with an id for each of them. -/
theorem audioSeq_applyManifest (hdir : env.fails .audioDirectory = false)
    (hall : allRestorable env archive 0 manifest.audioEntries = true) (piece : Piece) (d : Device) :
    ((applyManifest env archive manifest piece).exec d).2.audioSeq =
      manifest.audioEntries.foldl seqAfter d.audioSeq := by
  obtain ⟨r, files, seq, hrestore, hr⟩ := exec_restoreAudio env archive 0 manifest.audioEntries d
  rw [if_pos hall] at hr
  obtain ⟨rfl, rfl⟩ := hr
  rw [applyManifest, exec_bind_of_ok (Env.exec_await_of_not_fails hdir d),
    exec_bind_of_ok hrestore, (erases_finishImport _ _ _ _ _).counter]
  rfl

/-- With the slice replaced, the author's recordings are deleted. -/
theorem not_stores_applyManifest (hdir : env.fails .audioDirectory = false)
    (hall : allRestorable env archive 0 manifest.audioEntries = true)
    (hpersist : env.fails .persistAnnotations = false) (piece : Piece) {assetId : String}
    (hstale : assetId ∈ d.staleAssetIds manifest)
    (hdelete : env.fails (.deleteAsset assetId) = false) :
    ¬((applyManifest env archive manifest piece).exec d).2.Stores assetId := by
  obtain ⟨r, files, seq, hexec, -⟩ := exec_applyManifest env archive manifest piece d
  have hkept : ∀ assets : Assoc String AudioAsset,
      ((keptAssets env (d.staleAssetIds manifest) assets).get assetId).isSome ≠ true := by
    intro assets
    rw [get_keptAssets, if_pos ⟨hstale, hdelete⟩]
    exact Bool.false_ne_true
  rw [hexec]
  have hlate : stageReached env archive manifest = .marking ∨
      stageReached env archive manifest = .reporting ∨
        stageReached env archive manifest = .done := by
    simp only [stageReached, hdir, hall, hpersist]
    grind
  obtain hstage | hstage | hstage := hlate <;> rw [hstage] <;> exact hkept _

/-- An imported note is an entry of the manifest, at the counter that the entry finds. -/
theorem mem_importedNotes {note : AudioNote} {entries : List ManifestAudioEntry} {i seq : Nat}
    (h : note ∈ importedNotes env i seq entries) :
    ∃ entry ∈ entries, ∃ j n, note = importedNote env j n entry ∧ seq ≤ n ∧
      seqAfter n entry ≤ entries.foldl seqAfter seq := by
  induction entries generalizing i seq with
  | nil => cases h
  | cons entry rest ih =>
    obtain rfl | hrest := List.mem_cons.mp h
    · exact ⟨entry, List.mem_cons_self, i, seq, rfl, le_rfl, le_foldl_seqAfter _ rest⟩
    · obtain ⟨found, hfound, j, n, heq, hle, hbound⟩ := ih hrest
      exact ⟨found, List.mem_cons_of_mem _ hfound, j, n, heq, (le_seqAfter seq entry).trans hle,
        hbound⟩

/-- An entry of a bundle carries no asset id. -/
theorem audioAssetId_of_opened (hopen : opened? env bundle = some (archive, manifest))
    {entry : ManifestAudioEntry} (hentry : entry ∈ manifest.audioEntries) :
    entry.note.audioAssetId = "" := by
  have hmanifest := (opened?_eq_some.mp hopen).2.2
  obtain ⟨content, -, hmanifest⟩ := Option.bind_eq_some_iff.mp hmanifest
  obtain ⟨json, -, hjson⟩ := Option.bind_eq_some_iff.mp hmanifest
  have htransported : manifest.transported = manifest := transported_of_fromJson hjson
  rw [← htransported] at hentry
  obtain ⟨old, -, rfl⟩ := List.mem_map.mp hentry
  rfl

/-- The notes and the store that `resolvePiece` finds and leaves. -/
structure Device.SameNotes (d t : Device) : Prop where
  counter : t.audioSeq = d.audioSeq
  assets : t.audioAssets = d.audioAssets
  annotations : ∀ pieceId, t.annotationsFor pieceId = d.annotationsFor pieceId

/-- An import ends before it applies its manifest, or applies it. -/
theorem importBundle_applies (sha256 : Content → String)
    (hopen : opened? env bundle = some (archive, manifest)) (d : Device) :
    ∃ d₁, d.SameNotes d₁ ∧ (((importBundle sha256 env bundle).exec d).2 = d₁ ∨
      ∃ piece, ((importBundle sha256 env bundle).exec d).2 =
        ((applyManifest env archive manifest piece).exec d₁).2) := by
  have hafter : ∀ (piece : Piece) (d₁ : Device),
      ((applyUnlessStale env archive manifest piece).exec d₁).2 = d₁ ∨
        ((applyUnlessStale env archive manifest piece).exec d₁).2 =
          ((applyManifest env archive manifest piece).exec d₁).2 := by
    intro piece d₁
    by_cases hstale : manifest.StaleOn d₁
    · have hexec := exec_applyUnlessStale_of_stale env archive piece hstale
      split_ifs at hexec <;> obtain ⟨_, hexec⟩ := hexec <;> exact .inl (by rw [hexec])
    · exact .inr (by rw [exec_applyUnlessStale_of_newer hstale])
  rw [exec_importBundle_of_opened hopen]
  rcases resolvePiece_cases sha256 env archive manifest d with
    ⟨piece, -, -, e, he⟩ | ⟨piece, -, -, hexec⟩ | ⟨-, -, e, files, he⟩ | ⟨-, piece, -, hends⟩
  · rw [exec_bind_of_error he]
    exact ⟨d, ⟨rfl, rfl, fun _ => rfl⟩, .inl rfl⟩
  · rw [exec_bind_of_ok hexec]
    exact ⟨d, ⟨rfl, rfl, fun _ => rfl⟩, (hafter piece d).imp_right fun h => ⟨piece, h⟩⟩
  · rw [exec_bind_of_error he]
    refine ⟨_, ?_, .inl rfl⟩
    exact ⟨rfl, rfl, fun _ => rfl⟩
  · rcases hends with ⟨-, e, files, he⟩ | ⟨-, -, e, files, he⟩ | ⟨-, -, -, files, hexec⟩
    · rw [exec_bind_of_error he]
      refine ⟨_, ?_, .inl rfl⟩
      exact ⟨rfl, rfl, fun _ => rfl⟩
    · rw [exec_bind_of_error he]
      refine ⟨_, ?_, .inl rfl⟩
      exact ⟨rfl, rfl, fun _ => rfl⟩
    · rw [exec_bind_of_ok hexec]
      refine ⟨_, ?_, (hafter piece _).imp_right fun h => ⟨piece, h⟩⟩
      exact ⟨rfl, rfl, fun _ => rfl⟩

theorem spares_importBundle
    (h : ∀ opening ∈ opened? env bundle, ReplacesSlice sha256 env opening.1 opening.2 d →
      (∀ entry ∈ opening.2.audioEntries, entry.audioFile.isSome = true →
        entry.note.isTombstoned = false) ∧
      ∀ note ∈ d.notesOf opening.2.pieceId, note.authorId = opening.2.authorId →
        d.Audible note → env.fails .persistAnnotations = false ∧
          env.fails (.deleteAsset note.audioAssetId) = false) :
    d.Spares ((importBundle sha256 env bundle).exec d).2 := by
  rcases hopen : opened? env bundle with _ | ⟨archive, manifest⟩
  · obtain ⟨e, he⟩ := exec_importBundle_of_not_opened sha256 hopen d
    rw [he]
    exact .refl d
  obtain ⟨hreplaced, hkept⟩ := annotationsFor_importBundle sha256 hopen d
  obtain ⟨d₁, hsame, hends | ⟨piece, happlied⟩⟩ := importBundle_applies sha256 hopen d
  · rw [hends]
    exact .of_same hsame.assets hsame.counter fun q => congrArg (·.audioNotes) (hsame.annotations q)
  have hadds : d.Adds ((importBundle sha256 env bundle).exec d).2 := by
    rw [happlied]
    exact trans_of Adds (Erases.of_same hsame.counter hsame.assets).adds
      (adds_applyManifest env archive manifest piece d₁)
  by_cases hreplaces : ReplacesSlice sha256 env archive manifest d
  · obtain ⟨hlive, hdeleted⟩ := h _ hopen hreplaces
    obtain ⟨role, hannotations⟩ := hreplaced hreplaces
    obtain ⟨-, -, hdir, hall⟩ := hreplaces
    have hseq : ((importBundle sha256 env bundle).exec d).2.audioSeq =
        manifest.audioEntries.foldl seqAfter d.audioSeq := by
      rw [happlied, audioSeq_applyManifest hdir hall, hsame.counter]
    have hnotes : ∀ q, ((importBundle sha256 env bundle).exec d).2.notesOf q =
        if q = manifest.pieceId then
          (d.notesOf manifest.pieceId).filter (fun n => n.authorId != manifest.authorId) ++
            importedNotes env 0 d.audioSeq manifest.audioEntries
        else d.notesOf q := by
      intro q
      rw [notesOf, hannotations]
      split_ifs <;> rfl
    refine ⟨hadds.counter, hadds.stored, fun q note hnote => ?_, fun q id hbefore hafter hhas => ?_⟩
    · rw [hnotes] at hnote
      split_ifs at hnote with hq
      · obtain hold | himported := List.mem_append.mp hnote
        · exact .inr (.inl ⟨note, hq ▸ List.mem_of_mem_filter hold, rfl⟩)
        · obtain ⟨entry, hentry, j, n, rfl, hle, hbound⟩ := mem_importedNotes himported
          cases hfile : entry.audioFile.isSome with
          | false =>
            rw [importedNote, hfile, if_neg Bool.false_ne_true]
            exact .inl (audioAssetId_of_opened hopen hentry)
          | true =>
            rw [seqAfter, hfile, if_pos rfl, ← hseq] at hbound
            rw [importedNote, hfile, if_pos rfl]
            exact .inr (.inr ⟨hlive entry hentry hfile, _, n, rfl, hle, hbound⟩)
      · exact .inr (.inl ⟨note, hnote, rfl⟩)
    · obtain ⟨note, hnote, hnlive, rfl⟩ := hhas
      unfold Has
      rw [hnotes]
      split_ifs with hq
      · subst hq
        by_cases hauthor : note.authorId = manifest.authorId
        · -- the recording of an audible note of the author is deleted by the import
          obtain ⟨hpersist, hdelete⟩ := hdeleted note hnote hauthor ⟨hnlive, hbefore⟩
          have hstale : note.audioAssetId ∈ d₁.staleAssetIds manifest := by
            rw [staleAssetIds, List.mem_eraseDups, hsame.annotations]
            refine List.mem_map.mpr ⟨note, ?_, rfl⟩
            refine List.mem_filter.mpr ⟨List.mem_filter.mpr ⟨hnote, by simpa using hnlive⟩, ?_⟩
            simpa using hauthor
          rw [happlied] at hafter
          exact absurd hafter (not_stores_applyManifest hdir hall hpersist piece hstale hdelete)
        · exact ⟨note, List.mem_append_left _ (List.mem_filter.mpr ⟨hnote, by simpa using hauthor⟩),
            hnlive, rfl⟩
      · exact ⟨note, hnote, hnlive, rfl⟩
  · have hnotes : ∀ q, ((importBundle sha256 env bundle).exec d).2.notesOf q = d.notesOf q :=
      fun q => congrArg (·.audioNotes) (hkept hreplaces q)
    refine ⟨hadds.counter, hadds.stored, fun q note hnote => ?_, fun q id _ _ hhas => ?_⟩
    · rw [hnotes] at hnote
      exact .inr (.inl ⟨note, hnote, rfl⟩)
    · unfold Has
      rwa [hnotes]

end

/-! ## Runs -/

namespace NoteHistory

variable {sha256 : Content → String} {s t : NoteHistory} {e : NoteEvent}

/-- A call that drops no audible note spares the recordings. -/
theorem spares_perform (h : s.DropsNone sha256 e) :
    s.device.Spares ((e.perform sha256).exec s.device).2 := by
  cases e with
  | file path content => exact .of_same rfl rfl fun _ => rfl
  | saveAudioNote env pieceId sourcePath note => exact spares_saveAudioNote _ _ _ _ _
  | addStroke env pieceId stroke => exact spares_addStroke _ _ _ _
  | deleteAudioNote env pieceId noteId => exact spares_deleteAudioNote h
  | removeCollaborator env pieceId userId =>
    exact LocalPieceRepository.spares_removeCollaborator h
  | leavePiece env pieceId => exact LocalPieceRepository.spares_leavePiece h
  | importBundle env bundle =>
    have hspares := spares_importBundle h
    rw [NoteEvent.perform, exec_bind]
    rcases himport : (importBundle sha256 env bundle).exec s.device with ⟨error | summary, left⟩ <;>
      rw [himport] at hspares <;> exact hspares
  | deletePiece env pieceId => exact LocalPieceRepository.spares_deletePiece h

theorem inv_step (h : s.Inv) (hdrops : s.DropsNone sha256 e) (hstep : step sha256 s e = some t) :
    t.Inv := by
  obtain rfl := Option.some.inj hstep
  refine h.spares (spares_perform hdrops) fun pieceId hdeleted => ?_
  cases hexec : (e.perform sha256).exec s.device with
  | mk outcome left =>
    rw [hexec] at hdeleted
    cases outcome with
    | error error => cases hdeleted
    | ok done =>
      cases e with
      | deletePiece env pieceId' =>
        obtain rfl := Option.some.inj hdeleted
        exact LocalPieceRepository.notesOf_deletePiece hexec
      | _ => cases hdeleted

/-- `ann` as the user, and nothing fails. -/
def annCalls : Env := .quiet "ann" noon

end NoteHistory

end Duet
