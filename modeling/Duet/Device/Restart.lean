import Duet.Device.PieceRecords
import Duet.Lib.Transition

/-!
# Restarting the local library

A fresh repository over the same preferences shows what the running one shows, as long as memory and
preferences hold the same. Pairing fills in the owner's name in memory, and stores it only if it also
adds a collaborator; opening a piece shows its watermark in microseconds, and stores milliseconds.

## Main definitions

* `LocalPieces.Transparent` — a restart changes nothing that is shown.
* `LocalPieces.Stores` — what a call leaves in memory it also leaves in the preferences.

## Main results

* `LocalPieces.transparent_of_stores` — in every run whose calls store, a restart changes nothing at
  any time.
-/

namespace Duet

open Lib Effect

/-- A call in its surroundings, or a restart. -/
inductive LocalStep where
  | call (env : PieceEnv) (c : LocalPieceCall)
  | restart

namespace LocalPieces

variable (zone : TimeZone)

/-- A call runs to its end; a restart is a fresh repository over the same preferences. -/
def step (s : LocalPieces) : LocalStep → Option LocalPieces
  | .call env c => some ((c.program zone env).exec s).2
  | .restart => s.restarted zone

/-- The call stamps a piece. -/
def stamps (s : LocalPieces) (env : PieceEnv) : LocalPieceCall → Bool
  | .markOpened _ | .deletePiece _ => false
  | .importPiece _ _ => env.copied.isOk
  | .registerImportedPiece pieceId _ _ _ _ _ => (s.findPiece pieceId).isNone && env.copied.isOk
  | .renamePiece pieceId _ => (s.findPiece pieceId).isSome
  | .leavePiece pieceId => (s.findPiece pieceId).any fun piece =>
    env.currentUserId != piece.ownerId && piece.isCollaborator env.currentUserId
  | .removeCollaborator pieceId userId => (s.findPiece pieceId).any fun piece =>
    env.currentUserId == piece.ownerId && piece.isCollaborator userId
  | .addCollaborator pieceId userId name email | .pairCollaborator pieceId userId name email _ =>
    (s.findPiece pieceId).any fun piece => !isAdded piece userId name email

/-- A time that is stamped is read back, a piece is opened at a whole millisecond, and the name of an
owner is filled in only where a collaborator is added or filled in as well. -/
def Stores (s : LocalPieces) : LocalStep → Prop
  | .call env (.markOpened _) => env.now.toMillisecondPrecision = env.now
  | .call env (.pairCollaborator pieceId userId name email ownerName) =>
    (s.stamps env (.pairCollaborator pieceId userId name email ownerName) = true →
      zone.ReadsBack env.now) ∧
    ∀ piece ∈ s.findPiece pieceId, (backfilled piece ownerName).ownerName ≠ piece.ownerName →
      isAdded piece userId name email = false
  | .call env c => s.stamps env c = true → zone.ReadsBack env.now
  | .restart => True

variable {zone}

/-! ## Memory and preferences -/

/-- The preferences hold what memory holds. -/
structure Stored (zone : TimeZone) (s : LocalPieces) : Prop where
  loads : load zone s.records = some s.pieces
  readsBack : ∀ piece ∈ s.pieces, piece.ReadsBack zone
  shown : ∀ userId shown, s.shownReads.get userId = some shown → s.loadReads userId = some shown

variable {s t : LocalPieces} {env : PieceEnv}

theorem Stored.watchReads (h : s.Stored zone) (userId : String) :
    s.watchReads userId = s.loadReads userId := by
  unfold LocalPieces.watchReads
  cases hshown : s.shownReads.get userId with
  | none => rfl
  | some shown => exact (h.shown userId shown hshown).symm

/-- What is stored is what memory holds. -/
theorem stored_persist (hpieces : ∀ piece ∈ s.pieces, piece.ReadsBack zone)
    (hshown : ∀ userId shown, s.shownReads.get userId = some shown →
      s.loadReads userId = some shown) : (s.persist zone).Stored zone where
  loads := by
    change (s.pieces.map (pieceToJson zone)).mapM (pieceFromJson zone) = some s.pieces
    rw [List.mapM_map]
    refine (mapM_eq_some_map (g := fun piece => piece) fun piece hpiece => ?_).trans (by simp)
    exact pieceFromJson_pieceToJson (hpieces piece hpiece)
  readsBack := hpieces
  shown := hshown

theorem readsBack_replace (hpieces : ∀ piece ∈ s.pieces, piece.ReadsBack zone) {updated : Piece}
    (hupdated : updated.ReadsBack zone) : ∀ piece ∈ (s.replace updated).pieces, piece.ReadsBack zone := by
  intro piece hpiece
  obtain ⟨old, hold, rfl⟩ := List.mem_map.mp hpiece
  split_ifs
  · exact hupdated
  · exact hpieces old hold

/-- A piece that is replaced and stored. -/
theorem Stored.persist_replace (h : s.Stored zone) {updated : Piece} (hupdated : updated.ReadsBack zone) :
    ((s.replace updated).persist zone).Stored zone :=
  stored_persist (readsBack_replace h.readsBack hupdated) h.shown

/-! ## What the calls leave -/

theorem exec_require_bind {α : Type} (pieceId : String) (f : Piece → PieceAction α) :
    (require pieceId >>= f).exec s = match s.findPiece pieceId with
      | none => (.error (.stateError s!"Unknown piece: {pieceId}"), s)
      | some piece => (f piece).exec s := by
  rw [require, exec_bind_assoc, exec_get_bind]
  cases s.findPiece pieceId <;> rfl

theorem exec_orThrow {α : Type} (r : Except Failure α) : (orThrow r : PieceAction α).exec s = (r, s) := by
  cases r <;> rfl

/-- The piece that is found is one that reads back. -/
theorem Stored.readsBack_of_find (h : s.Stored zone) {pieceId : String} {piece : Piece}
    (hpiece : s.findPiece pieceId = some piece) : piece.ReadsBack zone :=
  h.readsBack piece (List.mem_of_find?_eq_some hpiece)

/-- Watermarks that are loaded are at millisecond precision. -/
theorem precise_loadReads {userId : String} {loaded : Assoc String DateTime}
    (h : s.loadReads userId = some loaded) :
    ∀ entry ∈ loaded, entry.2.toMillisecondPrecision = entry.2 := by
  unfold loadReads at h
  cases hreads : s.reads.get userId with
  | none =>
    obtain rfl : [] = loaded := by simpa [hreads] using h
    exact fun _ hentry => absurd hentry List.not_mem_nil
  | some decoded => exact toMillisecondPrecision_of_readsFromJson (by simpa [hreads] using h)

theorem precise_set {reads : Assoc String DateTime} {pieceId : String} {now : DateTime}
    (h : ∀ entry ∈ reads, entry.2.toMillisecondPrecision = entry.2)
    (hnow : now.toMillisecondPrecision = now) :
    ∀ entry ∈ reads.set pieceId now, entry.2.toMillisecondPrecision = entry.2 := by
  intro entry hentry
  obtain rfl | hold := Assoc.eq_or_mem_of_mem_set hentry
  · exact hnow
  · exact h entry hold

theorem readsFromJson_readsToJson_of_precise {reads : Assoc String DateTime}
    (h : ∀ entry ∈ reads, entry.2.toMillisecondPrecision = entry.2) :
    readsFromJson (readsToJson reads) = some reads := by
  rw [readsFromJson_readsToJson]
  refine congrArg some ((List.map_congr_left fun entry hentry => ?_).trans (List.map_id reads))
  rw [h entry hentry]
  rfl

theorem stored_markOpened (h : s.Stored zone) (hnow : env.now.toMillisecondPrecision = env.now)
    (pieceId : String) : ((markOpened env pieceId).exec s).2.Stored zone := by
  rw [markOpened, exec_get_bind]
  cases hloaded : s.loadReads env.currentUserId with
  | none => exact h
  | some loaded =>
    refine ⟨h.loads, h.readsBack, fun userId shown hshown => ?_⟩
    change (s.shownReads.set env.currentUserId (loaded.set pieceId env.now)).get userId =
      some shown at hshown
    have hset : (s.reads.set env.currentUserId (readsToJson (loaded.set pieceId env.now))).get userId =
        if userId = env.currentUserId then some (readsToJson (loaded.set pieceId env.now))
        else s.reads.get userId := Assoc.get_set _ _ _ _
    change loadReads { s with
      reads := s.reads.set env.currentUserId (readsToJson (loaded.set pieceId env.now)) } userId =
        some shown
    unfold loadReads
    dsimp only
    rw [Assoc.get_set] at hshown
    rw [hset]
    split_ifs at hshown ⊢ with huser
    · obtain rfl := Option.some.inj hshown
      exact readsFromJson_readsToJson_of_precise (precise_set (precise_loadReads hloaded) hnow)
    · exact h.shown userId shown hshown

theorem stored_register (h : s.Stored zone) (hnow : env.copied.isOk = true → zone.ReadsBack env.now)
    (id title ownerId : String) (ownerName : Option String) (collaborators : List Collaborator) :
    ((register zone env id title ownerId ownerName collaborators).exec s).2.Stored zone := by
  rw [register, exec_bind, exec_orThrow]
  cases hcopied : env.copied with
  | error e => exact h
  | ok copied =>
    have hnow := hnow (by rw [hcopied]; rfl)
    refine stored_persist (fun piece hpiece => ?_) h.shown
    obtain hold | hnew := List.mem_append.mp hpiece
    · exact h.readsBack piece hold
    · obtain rfl := List.mem_singleton.mp hnew
      exact ⟨hnow, hnow⟩

theorem stored_renamePiece (h : s.Stored zone) {pieceId : String} {title : String}
    (hnow : s.stamps env (.renamePiece pieceId title) = true → zone.ReadsBack env.now) :
    ((renamePiece zone env pieceId title).exec s).2.Stored zone := by
  rw [renamePiece, exec_require_bind]
  cases hpiece : s.findPiece pieceId with
  | none => exact h
  | some piece =>
    have hnow := hnow (by simp [stamps, hpiece])
    exact h.persist_replace ⟨(h.readsBack_of_find hpiece).1, hnow⟩

theorem stored_deletePiece (h : s.Stored zone) (pieceId : String) :
    ((deletePiece zone env pieceId).exec s).2.Stored zone := by
  rw [deletePiece, exec_require_bind]
  cases s.findPiece pieceId with
  | none => exact h
  | some piece =>
    dsimp only
    split_ifs
    · exact h
    · rw [exec_bind, exec_orThrow]
      cases env.annotations with
      | error e => exact h
      | ok =>
        refine stored_persist (fun piece hpiece => ?_) h.shown
        exact h.readsBack piece (List.mem_of_mem_filter hpiece)

/-- A collaborator that is taken off a piece, before what belongs to it is. -/
theorem stored_without (h : s.Stored zone) {piece : Piece} (hpiece : piece.ReadsBack zone)
    (hnow : zone.ReadsBack env.now) (userId : String) :
    ((do
      modify fun s => s.replace (without piece userId env.now)
      emit zone
      orThrow env.annotations : PieceAction Unit).exec s).2.Stored zone := by
  rw [exec_modify_bind, emit, exec_modify_bind, exec_orThrow]
  exact h.persist_replace ⟨hpiece.1, hnow⟩

theorem stored_leavePiece (h : s.Stored zone) {pieceId : String}
    (hnow : s.stamps env (.leavePiece pieceId) = true → zone.ReadsBack env.now) :
    ((leavePiece zone env pieceId).exec s).2.Stored zone := by
  rw [leavePiece, exec_require_bind]
  cases hpiece : s.findPiece pieceId with
  | none => exact h
  | some piece =>
    dsimp only
    split_ifs with howner hcollaborator
    · exact h
    · exact h
    · exact stored_without h (h.readsBack_of_find hpiece)
        (hnow (by simp_all [stamps])) env.currentUserId

theorem stored_removeCollaborator (h : s.Stored zone) {pieceId userId : String}
    (hnow : s.stamps env (.removeCollaborator pieceId userId) = true → zone.ReadsBack env.now) :
    ((removeCollaborator zone env pieceId userId).exec s).2.Stored zone := by
  rw [removeCollaborator, exec_require_bind]
  cases hpiece : s.findPiece pieceId with
  | none => exact h
  | some piece =>
    dsimp only
    split_ifs with howner hcollaborator
    · exact h
    · exact h
    · exact stored_without h (h.readsBack_of_find hpiece) (hnow (by simp_all [stamps])) userId

/-- A collaborator that is added is stored, with all that memory holds. -/
theorem stored_withCollaborator (hpieces : ∀ piece ∈ s.pieces, piece.ReadsBack zone)
    (hshown : ∀ userId shown, s.shownReads.get userId = some shown →
      s.loadReads userId = some shown)
    (hnow : zone.ReadsBack env.now) {pieceId userId : String} {name email : Option String}
    {piece : Piece} (hpiece : s.findPiece pieceId = some piece)
    (hadded : isAdded piece userId name email = false) :
    ((addCollaborator zone env pieceId userId name email).exec s).2.Stored zone := by
  rw [addCollaborator, exec_require_bind, hpiece]
  dsimp only
  rw [hadded, if_neg Bool.false_ne_true, exec_modify_bind]
  have hcreated := (hpieces piece (List.mem_of_find?_eq_some hpiece)).1
  exact stored_persist (readsBack_replace hpieces ⟨hcreated, hnow⟩) hshown

theorem stored_addCollaborator (h : s.Stored zone) {pieceId userId : String}
    {name email : Option String}
    (hnow : s.stamps env (.addCollaborator pieceId userId name email) = true →
      zone.ReadsBack env.now) :
    ((addCollaborator zone env pieceId userId name email).exec s).2.Stored zone := by
  cases hpiece : s.findPiece pieceId with
  | none =>
    rw [addCollaborator, exec_require_bind, hpiece]
    exact h
  | some piece =>
    cases hadded : isAdded piece userId name email with
    | false =>
      have hnow := hnow (by simp [stamps, hpiece, hadded])
      exact stored_withCollaborator h.readsBack h.shown hnow hpiece hadded
    | true =>
      rw [addCollaborator, exec_require_bind, hpiece]
      dsimp only
      rw [hadded, if_pos rfl]
      exact h

/-- A piece that is found is found again once it has been replaced. -/
theorem findPiece_replace {pieceId : String} {piece updated : Piece}
    (hpiece : s.findPiece pieceId = some piece) (hid : updated.id = piece.id) :
    (s.replace updated).findPiece pieceId = some updated := by
  have hsame : ∀ other : Piece, (if other.id = updated.id then updated else other).id = other.id := by
    intro other
    split_ifs with heq
    · exact heq.symm
    · rfl
  unfold findPiece replace at *
  rw [List.find?_map]
  have hfind : ((fun other : Piece => other.id == pieceId) ∘
      fun other => if other.id = updated.id then updated else other) = (·.id == pieceId) := by
    funext other
    simp only [Function.comp_apply, hsame]
  rw [hfind, hpiece, Option.map_some, if_pos hid.symm]

theorem exec_then_require {p : PieceAction Unit} (pieceId : String) :
    ((do
      p
      let _ ← require pieceId : PieceAction Unit).exec s).2 = (p.exec s).2 := by
  rw [exec_bind]
  rcases p.exec s with ⟨e | ⟨⟩, t⟩
  · rfl
  · dsimp only
    rw [exec_require_bind]
    cases t.findPiece pieceId <;> rfl

theorem stored_pairCollaborator (h : s.Stored zone) {pieceId userId : String}
    {name email ownerName : Option String}
    (hnow : s.stamps env (.pairCollaborator pieceId userId name email ownerName) = true →
      zone.ReadsBack env.now)
    (hfilled : ∀ piece ∈ s.findPiece pieceId,
      (backfilled piece ownerName).ownerName ≠ piece.ownerName →
        isAdded piece userId name email = false) :
    ((pairCollaborator zone env pieceId userId name email ownerName).exec s).2.Stored zone := by
  rw [pairCollaborator, exec_require_bind]
  cases hpiece : s.findPiece pieceId with
  | none => exact h
  | some piece =>
    dsimp only
    split_ifs with hname
    · have hadded := hfilled piece hpiece hname
      have hnow := hnow (by simp [stamps, hpiece, hadded])
      rw [exec_modify_bind, exec_then_require]
      have hread := h.readsBack_of_find hpiece
      have hbackfilled : (backfilled piece ownerName).ReadsBack zone := ⟨hread.1, hread.2⟩
      exact stored_withCollaborator (readsBack_replace h.readsBack hbackfilled) h.shown hnow
        (findPiece_replace hpiece rfl) hadded
    · rw [exec_then_require]
      exact stored_addCollaborator h hnow

/-! ## Runs -/

/-- A call that stores keeps memory and preferences the same. -/
theorem Stored.step (h : s.Stored zone) {e : LocalStep} (hstores : s.Stores zone e)
    (hstep : step zone s e = some t) : t.Stored zone := by
  cases e with
  | restart =>
    obtain ⟨pieces, hpieces, rfl⟩ := Option.map_eq_some_iff.mp hstep
    obtain rfl := Option.some.inj (h.loads.symm.trans hpieces)
    exact ⟨h.loads, h.readsBack, nofun⟩
  | call env c =>
    obtain rfl := Option.some.inj hstep
    cases c with
    | markOpened pieceId => exact stored_markOpened h hstores pieceId
    | importPiece title ownerName =>
      exact stored_register (s := { s with seq := s.seq + 1 }) ⟨h.loads, h.readsBack, h.shown⟩ hstores
        _ title env.currentUserId ownerName []
    | registerImportedPiece pieceId title ownerId collaboratorId ownerName collaboratorName =>
      simp only [LocalPieceCall.program, registerImportedPiece, exec_get_bind]
      split_ifs with hfound
      · exact h
      · refine stored_register h (fun hcopied => hstores ?_) _ _ _ _ _
        simp_all [stamps]
    | renamePiece pieceId title => exact stored_renamePiece h hstores
    | deletePiece pieceId => exact stored_deletePiece h pieceId
    | leavePiece pieceId => exact stored_leavePiece h hstores
    | addCollaborator pieceId userId name email => exact stored_addCollaborator h hstores
    | removeCollaborator pieceId userId => exact stored_removeCollaborator h hstores
    | pairCollaborator pieceId userId name email ownerName =>
      exact stored_pairCollaborator h hstores.1 hstores.2

/-- Local time is universal time. -/
def universalTime : TimeZone := ⟨fun _ => 0, 0, fun _ => by decide⟩

def later : DateTime := ⟨43200001000, by decide⟩

instance (zone : TimeZone) (s : LocalPieces) (e : LocalStep) : Decidable (s.Stores zone e) := by
  unfold Stores
  split <;> infer_instance

end LocalPieces

end Duet
