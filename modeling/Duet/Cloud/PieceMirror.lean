import Duet.Cloud.PieceRepository
import Duet.Device.Restart

/-!
# The two piece repositories

`LocalPieceRepository` keeps the pieces in one list, the Firestore repository keeps a document for
each. `RepositoryCall.contract` is what `PieceRepository` says a call makes of the piece it is about; the
local repository keeps to it, and so does the other one up to the time that pairing stamps.

## Main results

* `LocalPieces.exec_program` — a call of the local repository.
* `Firestore.exec_program` — the same call of the Firestore repository.
-/

namespace Duet

open Lib

/-! ## The contract -/

/-- A call that both repositories get. -/
inductive RepositoryCall where
  | registerImportedPiece (pieceId title ownerId sourcePath : String)
      (collaboratorId ownerName collaboratorName : Option String)
  | renamePiece (pieceId title : String)
  | deletePiece (pieceId : String)
  | leavePiece (pieceId : String)
  | addCollaborator (pieceId userId : String) (name email : Option String)
  | removeCollaborator (pieceId userId : String)
  | pairCollaborator (pieceId collaboratorId : String)
      (collaboratorName collaboratorEmail ownerName : Option String)
  | markOpened (pieceId : String)
  deriving DecidableEq, Repr

/-- The type of an error; `unavailable` is that of a file that cannot be read. -/
inductive FailureKind where
  | stateError | ownershipViolation | typeError | unavailable | reviewSync | invalidArchive
  | httpsError | notFound | permissionDenied
  deriving DecidableEq, Repr

def Failure.kind : Failure → FailureKind
  | .stateError _ => .stateError
  | .ownershipViolation _ _ => .ownershipViolation
  | .reviewSync _ | .reviewSyncCaused _ _ => .reviewSync
  | .typeError => .typeError
  | .invalidArchive => .invalidArchive
  | .platform _ => .unavailable

def CloudFailure.kind : CloudFailure → FailureKind
  | .httpsError _ _ => .httpsError
  | .notFound _ => .notFound
  | .permissionDenied => .permissionDenied
  | .stateError _ => .stateError
  | .ownershipViolation _ _ => .ownershipViolation
  | .typeError => .typeError
  | .unavailable => .unavailable

namespace Piece

/-- The piece without a collaborator, changed only if it had them. -/
def leftBy (piece : Piece) (userId : String) (now : DateTime) : Piece :=
  if piece.isCollaborator userId then LocalPieces.without piece userId now else piece

/-- The piece with a collaborator, changed only if their entry is. -/
def joinedBy (piece : Piece) (userId : String) (name email : Option String) (now : DateTime) :
    Piece :=
  if LocalPieces.isAdded piece userId name email then piece
  else LocalPieces.withCollaborator piece userId name email now

/-- Every collaborator is named once. -/
def Distinct (piece : Piece) : Prop := piece.collaboratorIds.Nodup

end Piece

namespace RepositoryCall

def pieceId : RepositoryCall → String
  | registerImportedPiece pieceId .. | renamePiece pieceId _ | deletePiece pieceId
  | leavePiece pieceId | addCollaborator pieceId .. | removeCollaborator pieceId _
  | pairCollaborator pieceId .. | markOpened pieceId => pieceId

def sourcePath : RepositoryCall → String
  | registerImportedPiece _ _ _ sourcePath .. => sourcePath
  | _ => ""

/-- What becomes of the piece of that id, if there is one. `staged` is the checksum of the source
and the path it has been copied to. -/
def contract (user : String) (now : DateTime) (staged : Option (String × String)) :
    RepositoryCall → Option Piece → Except FailureKind (Option Piece)
  | registerImportedPiece .., some _ => .error .stateError
  | registerImportedPiece pieceId title ownerId _ collaboratorId ownerName collaboratorName, none =>
    match staged with
    | none => .error .unavailable
    | some (checksum, path) => .ok (some ⟨pieceId, title, checksum, path, ownerId, ownerName,
        importedCollaborators collaboratorId collaboratorName, now, now⟩)
  | markOpened _, piece => .ok piece
  | _, none => .error .stateError
  | renamePiece _ title, some piece => .ok (some { piece with title := title, updatedAt := now })
  | deletePiece _, some piece =>
    if user = piece.ownerId then .ok none else .error .ownershipViolation
  | leavePiece _, some piece =>
    if user = piece.ownerId then .error .stateError else .ok (some (piece.leftBy user now))
  | removeCollaborator _ userId, some piece =>
    if user = piece.ownerId then .ok (some (piece.leftBy userId now))
    else .error .ownershipViolation
  | addCollaborator _ userId name email, some piece =>
    .ok (some (piece.joinedBy userId name email now))
  | pairCollaborator _ collaboratorId name email ownerName, some piece =>
    .ok (some ((LocalPieces.backfilled piece ownerName).joinedBy collaboratorId name email now))

/-- The piece after the call. -/
def after (user : String) (now : DateTime) (staged : Option (String × String)) (c : RepositoryCall)
    (piece : Option Piece) : Option Piece :=
  (c.contract user now staged piece).toOption.getD piece

/-- The contract as the Firestore repository has it: a piece is stamped whenever it is paired. -/
def contractInCloud (user : String) (now : DateTime) (staged : Option (String × String))
    (c : RepositoryCall) (piece : Option Piece) : Except FailureKind (Option Piece) :=
  match c with
  | pairCollaborator .. => (c.contract user now staged piece).map
      (Option.map fun p => { p with updatedAt := now })
  | _ => c.contract user now staged piece

/-- The checksum of the source and the path it is copied to, as the client has the source. -/
def stagedBy (platform : Platform) (client : Client) (c : RepositoryCall) : Option (String × String) :=
  (client.device.files.get c.sourcePath).map fun content =>
    (platform.sha256 content, piecesPath platform.documentsDirectory c.pieceId c.sourcePath)

/-- The call on `LocalPieceRepository`. -/
def onDevice : RepositoryCall → LocalPieceCall
  | registerImportedPiece pieceId title ownerId _ collaboratorId ownerName collaboratorName =>
    .registerImportedPiece pieceId title ownerId collaboratorId ownerName collaboratorName
  | renamePiece pieceId title => .renamePiece pieceId title
  | deletePiece pieceId => .deletePiece pieceId
  | leavePiece pieceId => .leavePiece pieceId
  | addCollaborator pieceId userId name email => .addCollaborator pieceId userId name email
  | removeCollaborator pieceId userId => .removeCollaborator pieceId userId
  | pairCollaborator pieceId collaboratorId collaboratorName collaboratorEmail ownerName =>
    .pairCollaborator pieceId collaboratorId collaboratorName collaboratorEmail ownerName
  | markOpened pieceId => .markOpened pieceId

/-- The call on `FirestorePieceRepository`; the piece that it returns is left out. -/
def inCloud (platform : Platform) (user : String) : RepositoryCall → ClientProgram Unit
  | registerImportedPiece pieceId title ownerId sourcePath collaboratorId ownerName
      collaboratorName => do
    let _ ← Firestore.registerImportedPiece platform pieceId title ownerId sourcePath collaboratorId
      ownerName collaboratorName
    .done ()
  | renamePiece pieceId title => Firestore.renamePiece pieceId title
  | deletePiece pieceId => Firestore.deletePiece user pieceId
  | leavePiece pieceId => Firestore.leavePiece user pieceId
  | addCollaborator pieceId userId name email => Firestore.addCollaborator pieceId userId name email
  | removeCollaborator pieceId userId => Firestore.removeCollaborator user pieceId userId
  | pairCollaborator pieceId collaboratorId collaboratorName collaboratorEmail ownerName => do
    let _ ← Firestore.pairCollaborator pieceId collaboratorId collaboratorName collaboratorEmail
      ownerName
    .done ()
  | markOpened pieceId => Firestore.markOpened user pieceId

end RepositoryCall

/-! ### What the contract keeps -/

section

variable {piece : Piece} {userId : String} {name email : Option String} {now : DateTime}

@[simp] theorem Piece.id_leftBy : (piece.leftBy userId now).id = piece.id := by
  unfold leftBy
  split_ifs <;> rfl

@[simp] theorem Piece.id_joinedBy : (piece.joinedBy userId name email now).id = piece.id := by
  unfold joinedBy
  split_ifs <;> rfl

theorem LocalPieces.uid_resolved : (LocalPieces.resolved piece userId name email).uid = userId := by
  unfold resolved
  split <;> rfl

theorem LocalPieces.collaboratorIds_withCollaborator :
    (LocalPieces.withCollaborator piece userId name email now).collaboratorIds =
      piece.collaboratorIds ++ if piece.isCollaborator userId then [] else [userId] := by
  have hsame : ∀ c : Collaborator,
      (if c.uid = userId then LocalPieces.resolved piece userId name email else c).uid = c.uid := by
    intro c
    split_ifs with huid
    · rw [uid_resolved, huid]
    · rfl
  simp only [Piece.collaboratorIds, withCollaborator, List.map_append, List.map_map]
  congr 1
  · exact List.map_congr_left fun c _ => hsame c
  · split_ifs
    · rfl
    · rw [List.map_singleton, uid_resolved]

theorem Piece.Distinct.leftBy (h : piece.Distinct) : (piece.leftBy userId now).Distinct := by
  unfold Piece.leftBy
  split_ifs
  · exact h.sublist (List.filter_sublist.map _)
  · exact h

theorem Piece.Distinct.joinedBy (h : piece.Distinct) :
    (piece.joinedBy userId name email now).Distinct := by
  unfold Piece.joinedBy
  split_ifs
  · exact h
  · rw [Piece.Distinct, LocalPieces.collaboratorIds_withCollaborator]
    split_ifs with hin
    · rwa [List.append_nil]
    · rw [Piece.isCollaborator_iff] at hin
      exact List.nodup_append.mpr ⟨h, List.nodup_singleton _, by simp; grind⟩

end

namespace RepositoryCall

variable {user : String} {now : DateTime} {staged : Option (String × String)} {c : RepositoryCall}
  {piece : Option Piece}

/-- What the contract makes of a piece has the id that the call names, and each collaborator once. -/
theorem keeps_contract {after : Option Piece}
    (h : c.contract user now staged piece = .ok after)
    (hpiece : ∀ p ∈ piece, p.id = c.pieceId ∧ p.Distinct) :
    ∀ p ∈ after, p.id = c.pieceId ∧ p.Distinct := by
  cases piece with
  | none =>
    cases c with
    | registerImportedPiece pieceId title ownerId _ collaboratorId ownerName collaboratorName =>
      cases staged with
      | none => cases h
      | some staged =>
        obtain rfl := Except.ok.inj h
        rintro p ⟨⟩
        refine ⟨rfl, ?_⟩
        cases collaboratorId <;> simp [Piece.Distinct, Piece.collaboratorIds, importedCollaborators]
    | markOpened => 
      obtain rfl := Except.ok.inj h
      exact hpiece
    | _ => cases h
  | some piece =>
    obtain ⟨hid, hdistinct⟩ := hpiece piece rfl
    cases c with
    | registerImportedPiece => cases h
    | markOpened =>
      obtain rfl := Except.ok.inj h
      exact hpiece
    | renamePiece =>
      obtain rfl := Except.ok.inj h
      rintro p ⟨⟩
      exact ⟨hid, hdistinct⟩
    | deletePiece =>
      simp only [contract] at h
      split_ifs at h
      obtain rfl := Except.ok.inj h
      rintro p ⟨⟩
    | leavePiece =>
      simp only [contract] at h
      split_ifs at h
      obtain rfl := Except.ok.inj h
      rintro p ⟨⟩
      exact ⟨Piece.id_leftBy.trans hid, hdistinct.leftBy⟩
    | removeCollaborator =>
      simp only [contract] at h
      split_ifs at h
      obtain rfl := Except.ok.inj h
      rintro p ⟨⟩
      exact ⟨Piece.id_leftBy.trans hid, hdistinct.leftBy⟩
    | addCollaborator =>
      obtain rfl := Except.ok.inj h
      rintro p ⟨⟩
      exact ⟨Piece.id_joinedBy.trans hid, hdistinct.joinedBy⟩
    | pairCollaborator =>
      obtain rfl := Except.ok.inj h
      rintro p ⟨⟩
      exact ⟨Piece.id_joinedBy.trans hid, Piece.Distinct.joinedBy hdistinct⟩

end RepositoryCall

/-! ## The local repository -/

namespace LocalPieces

open Effect

/-- One piece becomes `after`; the other pieces and the watermarks stay. -/
structure Turns (s t : LocalPieces) (pieceId : String) (after : Option Piece) : Prop where
  found : t.findPiece pieceId = after
  others : ∀ q ≠ pieceId, t.findPiece q = s.findPiece q
  distinct : (s.pieces.map (·.id)).Nodup → (t.pieces.map (·.id)).Nodup
  reads : t.reads = s.reads ∧ t.shownReads = s.shownReads

variable {s t : LocalPieces} {zone : TimeZone} {env : PieceEnv} {pieceId : String} {piece : Piece}
  {after : Option Piece}

theorem id_of_findPiece (h : s.findPiece pieceId = some piece) : piece.id = pieceId := by
  simpa using List.find?_some h

theorem Turns.refl (s : LocalPieces) (pieceId : String) :
    s.Turns s pieceId (s.findPiece pieceId) :=
  ⟨rfl, fun _ _ => rfl, fun h => h, rfl, rfl⟩

/-- What is written into the preferences is no matter. -/
theorem Turns.persist (h : s.Turns t pieceId after) : s.Turns (t.persist zone) pieceId after :=
  ⟨h.found, h.others, h.distinct, h.reads⟩

theorem turns_append (piece : Piece) (hnone : s.findPiece piece.id = none) :
    s.Turns { s with pieces := s.pieces ++ [piece] } piece.id (some piece) where
  found := by
    unfold findPiece at *
    rw [List.find?_append, hnone]
    simp
  others q hq := by
    unfold findPiece
    rw [List.find?_append, List.find?_singleton, if_neg (by simpa using Ne.symm hq), Option.or_none]
  distinct h := by
    have hnew : ∀ p ∈ s.pieces, p.id ≠ piece.id := by simpa [findPiece] using hnone
    rw [List.map_append, List.map_singleton]
    refine List.nodup_append.mpr ⟨h, List.nodup_singleton _, ?_⟩
    simpa using hnew
  reads := ⟨rfl, rfl⟩

theorem turns_replace (updated : Piece) (hpiece : s.findPiece pieceId = some piece)
    (hid : updated.id = piece.id) : s.Turns (s.replace updated) pieceId (some updated) where
  found := findPiece_replace hpiece hid
  others q hq := by
    have hne : updated.id ≠ q := by rw [hid, id_of_findPiece hpiece]; exact Ne.symm hq
    have hsame : ((fun p : Piece => p.id == q) ∘ fun p => if p.id = updated.id then updated else p) =
        fun p => p.id == q := by
      funext p
      simp only [Function.comp_apply]
      split_ifs with hp
      · rw [hp]
      · rfl
    unfold findPiece replace
    rw [List.find?_map, hsame]
    cases hother : s.pieces.find? fun p => p.id == q with
    | none => rfl
    | some other =>
      have hq : other.id = q := by simpa using List.find?_some hother
      rw [Option.map_some, if_neg (by rw [hq]; exact Ne.symm hne)]
  distinct h := by
    unfold replace
    rw [List.map_map]
    refine (congrArg List.Nodup (List.map_congr_left fun p _ => ?_)).mpr h
    simp only [Function.comp_apply]
    split_ifs with heq
    · exact heq.symm
    · rfl
  reads := ⟨rfl, rfl⟩

theorem turns_filter :
    s.Turns { s with pieces := s.pieces.filter fun piece => piece.id ≠ pieceId } pieceId none where
  found := by
    unfold findPiece
    simp
  others q hq := by
    unfold findPiece
    rw [List.find?_filter]
    congr 1
    funext p
    by_cases hp : p.id = q <;> simp [hp, hq]
  distinct h := h.sublist (List.filter_sublist.map _)
  reads := ⟨rfl, rfl⟩

theorem Turns.trans {u : LocalPieces} {between : Option Piece} (h : s.Turns t pieceId between)
    (h' : t.Turns u pieceId after) : s.Turns u pieceId after where
  found := h'.found
  others q hq := (h'.others q hq).trans (h.others q hq)
  distinct hs := h'.distinct (h.distinct hs)
  reads := ⟨h'.reads.1.trans h.reads.1, h'.reads.2.trans h.reads.2⟩

/-- What a call comes to: it fails and leaves the pieces, or makes of the piece what it should. -/
def KeepsTo (s : LocalPieces) (pieceId : String) (should : Except FailureKind (Option Piece))
    (run : Except Failure Unit × LocalPieces) : Prop :=
  run.1.mapError Failure.kind = should.map (fun _ => ()) ∧
    s.Turns run.2 pieceId (should.toOption.getD (s.findPiece pieceId))

theorem keepsTo_fails {e : Failure} (s : LocalPieces) (pieceId : String) :
    s.KeepsTo pieceId (.error e.kind) (.error e, s) := ⟨rfl, .refl s pieceId⟩

theorem Turns.keepsTo (h : s.Turns t pieceId after) : s.KeepsTo pieceId (.ok after) (.ok (), t) :=
  ⟨rfl, h⟩

/-- The collaborator is taken off, and then what belongs to them is dropped. -/
theorem keepsTo_leftBy (hpiece : s.findPiece pieceId = some piece) (userId : String)
    (hdropped : env.annotations = .ok ()) :
    s.KeepsTo pieceId (.ok (some (piece.leftBy userId env.now)))
      ((if !piece.isCollaborator userId then pure () else do
        modify fun s => s.replace (without piece userId env.now)
        emit zone
        orThrow env.annotations : PieceAction Unit).exec s) := by
  unfold Piece.leftBy
  cases hin : piece.isCollaborator userId with
  | false => exact (hpiece ▸ Turns.refl s pieceId).keepsTo
  | true =>
    rw [hdropped]
    exact (turns_replace (without piece userId env.now) hpiece rfl).persist.keepsTo

theorem keepsTo_addCollaborator (zone : TimeZone) (env : PieceEnv)
    (hpiece : s.findPiece pieceId = some piece) (userId : String) (name email : Option String) :
    s.KeepsTo pieceId (.ok (some (piece.joinedBy userId name email env.now)))
      ((addCollaborator zone env pieceId userId name email).exec s) := by
  rw [addCollaborator, exec_require_bind, hpiece, Piece.joinedBy]
  dsimp only
  cases hadded : isAdded piece userId name email with
  | true => exact (hpiece ▸ Turns.refl s pieceId).keepsTo
  | false =>
    exact (turns_replace (withCollaborator piece userId name email env.now) hpiece
      rfl).persist.keepsTo

/-- The piece is still there once a collaborator has been paired. -/
theorem keepsTo_paired (zone : TimeZone) (env : PieceEnv) (hpiece : s.findPiece pieceId = some piece)
    (userId : String) (name email : Option String) :
    s.KeepsTo pieceId (.ok (some (piece.joinedBy userId name email env.now)))
      ((do
        addCollaborator zone env pieceId userId name email
        let _ ← require pieceId : PieceAction Unit).exec s) := by
  obtain ⟨hends, hturns⟩ := keepsTo_addCollaborator zone env hpiece userId name email
  rw [exec_bind]
  rcases hrun : (addCollaborator zone env pieceId userId name email).exec s with ⟨e | ⟨⟩, t⟩
  · rw [hrun] at hends
    cases hends
  · rw [hrun] at hturns
    dsimp only at hturns ⊢
    rw [exec_require_bind, hturns.found]
    exact hturns.keepsTo

/-- A new piece is registered, unless its base PDF cannot be copied. -/
theorem keepsTo_registerImportedPiece (zone : TimeZone)
    (hcopied : ∀ e, env.copied = .error e → e.kind = .unavailable)
    (pieceId title ownerId sourcePath : String)
    (collaboratorId ownerName collaboratorName : Option String) :
    s.KeepsTo pieceId
      ((RepositoryCall.registerImportedPiece pieceId title ownerId sourcePath collaboratorId ownerName
        collaboratorName).contract env.currentUserId env.now env.copied.toOption
          (s.findPiece pieceId))
      ((LocalPieceCall.program zone env (RepositoryCall.registerImportedPiece pieceId title ownerId
        sourcePath collaboratorId ownerName collaboratorName).onDevice).exec s) := by
  simp only [RepositoryCall.onDevice, LocalPieceCall.program, registerImportedPiece, exec_get_bind]
  cases hpiece : s.findPiece pieceId with
  | some piece => exact keepsTo_fails s pieceId
  | none =>
    simp only [register, Option.isSome_none, Bool.false_eq_true, if_false, exec_bind, exec_orThrow]
    cases hcopy : env.copied with
    | error e =>
      have hfails := keepsTo_fails (e := e) s pieceId
      rwa [hcopied e hcopy] at hfails
    | ok copied =>
      have hnew : importedCollaborators collaboratorId collaboratorName =
          collaboratorId.toList.map fun uid => ⟨uid, collaboratorName, none⟩ := by
        cases collaboratorId <;> rfl
      simp only [RepositoryCall.contract, Except.toOption, hnew]
      exact (turns_append ⟨pieceId, _, _, _, _, _, _, _, _⟩ hpiece).persist.keepsTo

/-- The name of the owner is filled in, and the collaborator is added. -/
theorem keepsTo_pairCollaborator (zone : TimeZone) (env : PieceEnv) (pieceId userId : String)
    (name email ownerName : Option String) :
    s.KeepsTo pieceId
      ((RepositoryCall.pairCollaborator pieceId userId name email ownerName).contract
        env.currentUserId env.now env.copied.toOption (s.findPiece pieceId))
      ((LocalPieceCall.program zone env (RepositoryCall.pairCollaborator pieceId userId name email
        ownerName).onDevice).exec s) := by
  simp only [RepositoryCall.onDevice, LocalPieceCall.program, pairCollaborator, exec_require_bind]
  cases hpiece : s.findPiece pieceId with
  | none => exact keepsTo_fails s pieceId
  | some piece =>
    dsimp only
    split_ifs with hname
    · have hbackfilled := turns_replace (backfilled piece ownerName) hpiece rfl
      obtain ⟨hends, hturns⟩ := keepsTo_paired zone env hbackfilled.found userId name email
      exact ⟨hends, hbackfilled.trans hturns⟩
    · have hsame : backfilled piece ownerName = piece := by
        rw [not_not] at hname
        rw [backfilled, show (piece.ownerName <|> ownerName) = piece.ownerName from hname]
      have hpaired := keepsTo_paired zone env hpiece userId name email
      rwa [← hsame] at hpaired

/-- A call of the local repository keeps to the contract, as long as its stores do not fail. -/
theorem exec_program (c : RepositoryCall) (hmark : ∀ q, c ≠ .markOpened q)
    (hcopied : ∀ e, env.copied = .error e → e.kind = .unavailable)
    (hdropped : env.annotations = .ok ()) :
    s.KeepsTo c.pieceId
      (c.contract env.currentUserId env.now env.copied.toOption (s.findPiece c.pieceId))
      ((c.onDevice.program zone env).exec s) := by
  cases c with
  | markOpened q => exact absurd rfl (hmark q)
  | registerImportedPiece =>
    exact keepsTo_registerImportedPiece zone hcopied _ _ _ _ _ _ _
  | renamePiece pieceId title =>
    simp only [RepositoryCall.onDevice, LocalPieceCall.program, RepositoryCall.pieceId, renamePiece,
      exec_require_bind]
    cases hpiece : s.findPiece pieceId with
    | none => exact keepsTo_fails s pieceId
    | some piece =>
      exact (turns_replace { piece with title := title, updatedAt := env.now } hpiece
        rfl).persist.keepsTo
  | deletePiece pieceId =>
    simp only [RepositoryCall.onDevice, LocalPieceCall.program, RepositoryCall.pieceId, deletePiece,
      exec_require_bind]
    cases hpiece : s.findPiece pieceId with
    | none => exact keepsTo_fails s pieceId
    | some piece =>
      simp only [RepositoryCall.contract, ne_eq, ite_not]
      split_ifs
      · simp only [exec_bind, exec_orThrow, hdropped]
        exact turns_filter.persist.keepsTo
      · exact keepsTo_fails s pieceId
  | leavePiece pieceId =>
    simp only [RepositoryCall.onDevice, LocalPieceCall.program, RepositoryCall.pieceId, leavePiece,
      exec_require_bind]
    cases hpiece : s.findPiece pieceId with
    | none => exact keepsTo_fails s pieceId
    | some piece =>
      simp only [RepositoryCall.contract]
      by_cases howner : env.currentUserId = piece.ownerId
      · rw [if_pos howner, if_pos howner]
        exact keepsTo_fails s pieceId
      · rw [if_neg howner, if_neg howner]
        exact keepsTo_leftBy hpiece env.currentUserId hdropped
  | removeCollaborator pieceId userId =>
    simp only [RepositoryCall.onDevice, LocalPieceCall.program, RepositoryCall.pieceId, removeCollaborator,
      exec_require_bind]
    cases hpiece : s.findPiece pieceId with
    | none => exact keepsTo_fails s pieceId
    | some piece =>
      simp only [RepositoryCall.contract, ne_eq, ite_not]
      by_cases howner : env.currentUserId = piece.ownerId
      · rw [if_pos howner, if_pos howner]
        exact keepsTo_leftBy hpiece userId hdropped
      · rw [if_neg howner, if_neg howner]
        exact keepsTo_fails s pieceId
  | addCollaborator pieceId userId name email =>
    simp only [RepositoryCall.onDevice, LocalPieceCall.program, RepositoryCall.pieceId]
    cases hpiece : s.findPiece pieceId with
    | none =>
      rw [addCollaborator, exec_require_bind, hpiece]
      exact keepsTo_fails s pieceId
    | some piece => exact keepsTo_addCollaborator zone env hpiece userId name email
  | pairCollaborator => exact keepsTo_pairCollaborator zone env _ _ _ _ _

end LocalPieces

/-! ## The Firestore repository -/

/-- The piece is read with an empty path for its base PDF, and none is written. -/
@[simp] theorem pieceToFirestore_basePdfPath (piece : Piece) (path : String) :
    pieceToFirestore { piece with basePdfPath := path } = pieceToFirestore piece := rfl

namespace Client

/-- The document of one piece becomes that of `after`; the other documents stay. -/
structure Turns (client client' : Client) (pieceId : String) (after : Option Piece) : Prop where
  found : client'.cloud.doc (.pieces pieceId) = after.map pieceToFirestore
  others : ∀ path, path ≠ .pieces pieceId → client'.cloud.doc path = client.cloud.doc path

/-- What a call comes to: it fails and leaves the documents, or makes of the piece what it should. -/
def KeepsTo (client : Client) (pieceId : String) (piece : Option Piece)
    (should : Except FailureKind (Option Piece)) (run : Except CloudFailure Unit × Client) : Prop :=
  run.1.mapError CloudFailure.kind = should.map (fun _ => ()) ∧
    client.Turns run.2 pieceId (should.toOption.getD piece)

end Client

namespace Firestore

variable {client : Client} {platform : Platform} {given : Given} {pieceId : String}
  {piece : Option Piece}

theorem pieceFrom_pieceToFirestore (piece : Piece) :
    pieceFrom piece.id (some (pieceToFirestore piece)) "" = .ok { piece with basePdfPath := "" } := by
  simp [pieceFrom]

/-- A transaction runs by itself, at the time of the clock. -/
theorem exec_mutate (change : Piece → Except CloudFailure (Option Piece)) :
    (mutate pieceId change).exec (ClientOperation.interpret platform given) client =
      match (mutation pieceId given.now change).run client.cloud with
      | .ok cloud => (.ok (), { client with cloud := cloud })
      | .error e => (.error e, client) := by
  have hnow : (mutate pieceId change).exec (ClientOperation.interpret platform given) client =
      (onFirestore (transaction (mutation pieceId given.now change))).exec
        (ClientOperation.interpret platform given) client := Fallible.exec_ask_bind _ _
  rw [hnow, exec_onFirestore, exec_transaction]
  cases (mutation pieceId given.now change).run client.cloud <;> rfl

section

variable {change : Piece → Except CloudFailure (Option Piece)} {p changed after : Piece}

theorem keepsTo_unknown (hdoc : client.cloud.doc (.pieces pieceId) = none) :
    client.KeepsTo pieceId none (.error .stateError) ((guarding pieceId (mutate pieceId change)).exec
      (ClientOperation.interpret platform given) client) := by
  rw [exec_guarding, exec_mutate, mutation]
  simp only [Transaction.run, hdoc]
  exact ⟨rfl, hdoc, fun _ _ => rfl⟩

/-- What a change of the piece comes to is a matter of the piece alone. -/
theorem run_mutation (hdoc : client.cloud.doc (.pieces p.id) = some (pieceToFirestore p)) :
    (mutation p.id given.now change).run client.cloud =
      match change { p with basePdfPath := "" } with
      | .error e => .error e
      | .ok none => .ok client.cloud
      | .ok (some changed) => .ok (client.cloud.store (.pieces p.id)
          (some (pieceToFirestore { changed with updatedAt := given.now }))) := by
  simp only [mutation, Transaction.run, hdoc]
  rw [pieceFrom_pieceToFirestore]
  simp only [Except.bind]
  rcases change { p with basePdfPath := "" } with e | (_ | changed) <;> rfl

theorem keepsTo_refused (hdoc : client.cloud.doc (.pieces p.id) = some (pieceToFirestore p))
    {e : CloudFailure} (hchange : change { p with basePdfPath := "" } = .error e) :
    client.KeepsTo p.id (some p) (.error (guardedFailure p.id e).kind)
      ((guarding p.id (mutate p.id change)).exec
        (ClientOperation.interpret platform given) client) := by
  rw [exec_guarding, exec_mutate, run_mutation hdoc, hchange]
  exact ⟨rfl, hdoc, fun _ _ => rfl⟩

theorem keepsTo_unchanged (hdoc : client.cloud.doc (.pieces p.id) = some (pieceToFirestore p))
    (hchange : change { p with basePdfPath := "" } = .ok none) :
    client.KeepsTo p.id (some p) (.ok (some p)) ((guarding p.id (mutate p.id change)).exec
      (ClientOperation.interpret platform given) client) := by
  rw [exec_guarding, exec_mutate, run_mutation hdoc, hchange]
  exact ⟨rfl, hdoc, fun _ _ => rfl⟩

/-- What is written is all that counts. -/
theorem keepsTo_changed (hdoc : client.cloud.doc (.pieces p.id) = some (pieceToFirestore p))
    (hchange : change { p with basePdfPath := "" } = .ok (some changed))
    (hafter : pieceToFirestore { changed with updatedAt := given.now } = pieceToFirestore after) :
    client.KeepsTo p.id (some p) (.ok (some after)) ((guarding p.id (mutate p.id change)).exec
      (ClientOperation.interpret platform given) client) := by
  rw [exec_guarding, exec_mutate, run_mutation hdoc, hchange]
  refine ⟨rfl, ?_, fun path hpath => Cloud.doc_store_of_ne _ hpath _⟩
  exact (Cloud.doc_store_self _ _ _).trans (congrArg some hafter)

end

/-- An entry that is there as it would be written is the only one of its collaborator. -/
theorem withCollaborator_of_isAdded {piece : Piece} (h : piece.Distinct) {userId : String}
    {name email : Option String} (hadded : LocalPieces.isAdded piece userId name email = true) :
    withCollaborator piece (resolved piece userId name email) = piece.collaborators := by
  have hfind : piece.collaborators.find? (·.uid == userId) =
      some (resolved piece userId name email) := beq_iff_eq.mp hadded
  have hmem := List.mem_of_find?_eq_some hfind
  have huid : (resolved piece userId name email).uid = userId := LocalPieces.uid_resolved
  have hin : piece.isCollaborator userId = true := by
    rw [Piece.isCollaborator_iff, ← huid]
    exact List.mem_map_of_mem hmem
  rw [withCollaborator, huid, hin, if_pos rfl, List.append_nil]
  refine (List.map_congr_left fun c hc => ?_).trans (List.map_id _)
  split_ifs with hc'
  · exact List.inj_on_of_nodup_map h hmem hc (huid.trans hc'.symm)
  · rfl

theorem exec_stageLocally (id sourcePath : String) :
    (stageLocally platform id sourcePath).exec (ClientOperation.interpret platform given) client =
      match client.device.files.get sourcePath with
      | none => (.error .unavailable, client)
      | some content =>
        (.ok (platform.sha256 content, piecesPath platform.documentsDirectory id sourcePath),
          client.copyFile platform sourcePath
            (piecesPath platform.documentsDirectory id sourcePath) content) := by
  refine (Fallible.exec_ask_bind (ClientOperation.checksum sourcePath) _).trans ?_
  rw [ClientOperation.perform]
  cases hfile : client.device.files.get sourcePath with
  | none => rfl
  | some content =>
    refine (Fallible.exec_ask_bind (ClientOperation.copyFile sourcePath _) _).trans ?_
    simp only [ClientOperation.perform, hfile]
    rfl

theorem exec_recordBasePath (id path : String) :
    (recordBasePath id path).exec (ClientOperation.interpret platform given) client =
      (.ok (), { client with basePaths := client.basePaths.set id path }) := rfl

theorem exec_createPiece (id title ownerId : String) (ownerName : Option String)
    (collaborators : List Collaborator) (staged : String × String) :
    (createPiece id title ownerId ownerName collaborators staged).exec
        (ClientOperation.interpret platform given) client =
      let piece : Piece := ⟨id, title, staged.1, staged.2, ownerId, ownerName, collaborators,
        given.now, given.now⟩
      (.ok piece, { client with
        cloud := client.cloud.store (.pieces id) (some (pieceToFirestore piece)) }) := by
  refine (Fallible.exec_ask_bind ClientOperation.now _).trans ?_
  simp only [ClientOperation.perform]
  rw [Program.exec_bind, exec_onFirestore, exec_commit, Cloud.commit_set]
  rfl

theorem exec_registerImportedPiece_of_none {title ownerId sourcePath : String}
    {collaboratorId ownerName collaboratorName : Option String}
    (hnone : client.cloud.doc (.pieces pieceId) = none) :
    (registerImportedPiece platform pieceId title ownerId sourcePath collaboratorId ownerName
        collaboratorName).exec (ClientOperation.interpret platform given) client =
      match client.device.files.get sourcePath with
      | none => (.error .unavailable, client)
      | some content =>
        let path := piecesPath platform.documentsDirectory pieceId sourcePath
        let piece : Piece := ⟨pieceId, title, platform.sha256 content, path, ownerId, ownerName,
          importedCollaborators collaboratorId collaboratorName, given.now, given.now⟩
        (.ok piece, { client.copyFile platform sourcePath path content with
          basePaths := client.basePaths.set pieceId path
          cloud := client.cloud.store (.pieces pieceId) (some (pieceToFirestore piece)) }) := by
  rw [registerImportedPiece, exec_guarding, Program.exec_bind, exec_onFirestore, exec_getDoc, hnone]
  simp only [Option.isSome_none, Bool.false_eq_true, if_false]
  rw [Program.exec_bind, exec_stageLocally]
  cases hfile : client.device.files.get sourcePath with
  | none => rfl
  | some content =>
    dsimp only
    rw [Program.exec_bind, exec_recordBasePath]
    dsimp only
    rw [exec_createPiece]
    rfl

theorem keepsTo_registerImportedPiece (user title ownerId sourcePath : String)
    (collaboratorId ownerName collaboratorName : Option String)
    (hdoc : client.cloud.doc (.pieces pieceId) = piece.map pieceToFirestore) :
    let c := RepositoryCall.registerImportedPiece pieceId title ownerId sourcePath collaboratorId ownerName
      collaboratorName
    client.KeepsTo pieceId piece (c.contract user given.now (c.stagedBy platform client) piece)
      ((c.inCloud platform user).exec (ClientOperation.interpret platform given) client) := by
  simp only [RepositoryCall.inCloud, RepositoryCall.stagedBy, RepositoryCall.sourcePath, RepositoryCall.pieceId]
  rw [Program.exec_bind]
  cases piece with
  | some piece =>
    have hexec : (registerImportedPiece platform pieceId title ownerId sourcePath collaboratorId
        ownerName collaboratorName).exec (ClientOperation.interpret platform given) client =
          (.error (.stateError s!"Piece already exists: {pieceId}"), client) := by
      rw [registerImportedPiece, exec_guarding, Program.exec_bind, exec_onFirestore, exec_getDoc, hdoc]
      rfl
    rw [hexec]
    exact ⟨rfl, hdoc, fun _ _ => rfl⟩
  | none =>
    rw [exec_registerImportedPiece_of_none hdoc]
    cases client.device.files.get sourcePath with
    | none => exact ⟨rfl, hdoc, fun _ _ => rfl⟩
    | some content =>
      refine ⟨rfl, Cloud.doc_store_self _ _ _, fun path hpath => ?_⟩
      exact Cloud.doc_store_of_ne _ hpath _

theorem keepsTo_deletePiece (user : String) (staged : Option (String × String))
    (hid : ∀ p ∈ piece, p.id = pieceId)
    (hdoc : client.cloud.doc (.pieces pieceId) = piece.map pieceToFirestore) :
    client.KeepsTo pieceId piece
      ((RepositoryCall.deletePiece pieceId).contract user given.now staged piece)
      ((deletePiece user pieceId).exec (ClientOperation.interpret platform given) client) := by
  rw [deletePiece, exec_guarding, Program.exec_bind, exec_onFirestore, exec_transaction]
  simp only [Transaction.run, hdoc]
  cases piece with
  | none => exact ⟨rfl, hdoc, fun _ _ => rfl⟩
  | some p =>
    obtain rfl := hid p rfl
    rw [Option.map_some, pieceFrom_pieceToFirestore]
    by_cases howner : user = p.ownerId
    · simp only [ne_eq, howner, not_true_eq_false, if_false, RepositoryCall.contract, if_true]
      refine ⟨rfl, Cloud.doc_store_self _ _ _, fun path hpath => ?_⟩
      exact Cloud.doc_store_of_ne _ hpath _
    · simp only [ne_eq, howner, not_false_eq_true, if_true, RepositoryCall.contract, if_false]
      exact ⟨rfl, hdoc, fun _ _ => rfl⟩

/-- A collaborator is taken off a piece by a change that comes after a guard. -/
theorem keepsTo_leftBy {p : Piece} {userId : String} (guard : Prop) [Decidable guard]
    {change : Piece → Except CloudFailure (Option Piece)} (e : CloudFailure)
    (hdoc : client.cloud.doc (.pieces p.id) = some (pieceToFirestore p))
    (hchange : change { p with basePdfPath := "" } = if guard then .error e
      else if !p.isCollaborator userId then .ok none
      else .ok (some (withoutCollaborator { p with basePdfPath := "" } userId))) :
    client.KeepsTo p.id (some p)
      (if guard then .error (guardedFailure p.id e).kind
        else .ok (some (p.leftBy userId given.now)))
      ((guarding p.id (mutate p.id change)).exec
        (ClientOperation.interpret platform given) client) := by
  by_cases hguard : guard
  · rw [if_pos hguard] at hchange ⊢
    exact keepsTo_refused hdoc hchange
  · rw [if_neg hguard] at hchange ⊢
    unfold Piece.leftBy
    cases hin : p.isCollaborator userId with
    | false =>
      rw [hin] at hchange
      exact keepsTo_unchanged hdoc hchange
    | true =>
      rw [hin] at hchange
      exact keepsTo_changed hdoc hchange rfl

/-- The piece with the entry of a collaborator, as it is written. -/
theorem pieceToFirestore_withCollaborator (p : Piece) (userId : String) (name email : Option String)
    (now : DateTime) :
    pieceToFirestore { p with
      collaborators := withCollaborator p (resolved p userId name email), updatedAt := now } =
        pieceToFirestore (LocalPieces.withCollaborator p userId name email now) := by
  have huid : (resolved p userId name email).uid = userId := LocalPieces.uid_resolved
  simp only [withCollaborator, huid]
  rfl

/-- What pairing writes, whether or not the entry is there. -/
theorem pieceToFirestore_paired {p : Piece} (h : p.Distinct) (userId : String)
    (name email : Option String) (now : DateTime) :
    pieceToFirestore { p with
      collaborators := withCollaborator p (resolved p userId name email), updatedAt := now } =
        pieceToFirestore { p.joinedBy userId name email now with updatedAt := now } := by
  unfold Piece.joinedBy
  split_ifs with hadded
  · rw [withCollaborator_of_isAdded h hadded]
  · exact pieceToFirestore_withCollaborator p userId name email now

/-- The piece that has been written is there to be read. -/
theorem exec_readPiece (p : Piece) :
    (readPiece p.id (some (pieceToFirestore p))).exec (ClientOperation.interpret platform given)
      client = (.ok { p with basePdfPath := (client.basePaths.get p.id).getD "" }, client) := by
  have hpath : (basePathFor p.id).exec (ClientOperation.interpret platform given) client =
      (.ok ((client.basePaths.get p.id).getD ""), client) := rfl
  rw [readPiece, Program.exec_bind, hpath]
  simp only [pieceFrom, pieceFromFirestore_pieceToFirestore]
  rfl

/-- A change whose piece is read again. -/
theorem keepsTo_mutate_read {p changed after : Piece}
    {change : Piece → Except CloudFailure (Option Piece)}
    (hdoc : client.cloud.doc (.pieces p.id) = some (pieceToFirestore p))
    (hchange : change { p with basePdfPath := "" } = .ok (some changed)) (hid : after.id = p.id)
    (hafter : pieceToFirestore { changed with updatedAt := given.now } = pieceToFirestore after) :
    client.KeepsTo p.id (some p) (.ok (some after)) ((do
      let _ ← guarding p.id (do
        mutate p.id change
        let refreshed ← onFirestore (getDoc (.pieces p.id))
        readPiece p.id refreshed)
      .done () : ClientProgram Unit).exec (ClientOperation.interpret platform given) client) := by
  rw [Program.exec_bind, exec_guarding, Program.exec_bind, exec_mutate, run_mutation hdoc, hchange]
  simp only [hafter]
  rw [Program.exec_bind, exec_onFirestore, exec_getDoc, Cloud.doc_store_self, ← hid]
  simp only [exec_readPiece]
  refine ⟨rfl, Cloud.doc_store_self _ _ _, fun path hpath => Cloud.doc_store_of_ne _ hpath _⟩

/-- A call of the Firestore repository keeps to the contract, up to the time that pairing stamps. -/
theorem exec_program (c : RepositoryCall) (user : String) (hmark : ∀ q, c ≠ .markOpened q)
    (hpiece : ∀ p ∈ piece, p.id = c.pieceId ∧ p.Distinct)
    (hdoc : client.cloud.doc (.pieces c.pieceId) = piece.map pieceToFirestore) :
    client.KeepsTo c.pieceId piece
      (c.contractInCloud user given.now (c.stagedBy platform client) piece)
      ((c.inCloud platform user).exec (ClientOperation.interpret platform given) client) := by
  cases c with
  | markOpened q => exact absurd rfl (hmark q)
  | registerImportedPiece pieceId title ownerId sourcePath collaboratorId ownerName collaboratorName =>
    exact keepsTo_registerImportedPiece user title ownerId sourcePath collaboratorId ownerName
      collaboratorName hdoc
  | deletePiece pieceId =>
    exact keepsTo_deletePiece user _ (fun p hp => (hpiece p hp).1) hdoc
  | renamePiece pieceId title =>
    cases piece with
    | none => exact keepsTo_unknown hdoc
    | some p =>
      obtain ⟨rfl, -⟩ := hpiece p rfl
      exact keepsTo_changed hdoc rfl rfl
  | leavePiece pieceId =>
    cases piece with
    | none => exact keepsTo_unknown hdoc
    | some p =>
      obtain ⟨rfl, -⟩ := hpiece p rfl
      refine keepsTo_leftBy (user = p.ownerId)
        (.stateError "The owner of this piece cannot leave it; delete it instead.") hdoc ?_
      rfl
  | removeCollaborator pieceId userId =>
    cases piece with
    | none => exact keepsTo_unknown hdoc
    | some p =>
      obtain ⟨rfl, -⟩ := hpiece p rfl
      have hshould : (RepositoryCall.removeCollaborator p.id userId).contractInCloud user given.now
          ((RepositoryCall.removeCollaborator p.id userId).stagedBy platform client) (some p) =
            if user ≠ p.ownerId then .error .ownershipViolation
            else .ok (some (p.leftBy userId given.now)) := (ite_not _ _ _).symm
      rw [hshould]
      refine keepsTo_leftBy (user ≠ p.ownerId)
        (.ownershipViolation p.id (some "only the owner may remove a collaborator")) hdoc ?_
      rfl
  | addCollaborator pieceId userId name email =>
    cases piece with
    | none => exact keepsTo_unknown hdoc
    | some p =>
      obtain ⟨rfl, -⟩ := hpiece p rfl
      simp only [RepositoryCall.contractInCloud, RepositoryCall.contract, Piece.joinedBy]
      split_ifs with hadded
      · exact keepsTo_unchanged hdoc (if_pos (beq_iff_eq.mp hadded))
      · refine keepsTo_changed hdoc (if_neg fun hfind => hadded (beq_iff_eq.mpr hfind)) ?_
        exact pieceToFirestore_withCollaborator p userId name email given.now
  | pairCollaborator pieceId userId name email ownerName =>
    cases piece with
    | none =>
      simp only [RepositoryCall.inCloud, pairCollaborator]
      rw [Program.exec_bind, exec_guarding, Program.exec_bind, exec_mutate, mutation]
      simp only [Transaction.run, show client.cloud.doc (.pieces pieceId) = none from hdoc]
      exact ⟨rfl, hdoc, fun _ _ => rfl⟩
    | some p =>
      obtain ⟨rfl, hdistinct⟩ := hpiece p rfl
      have hpaired : (LocalPieces.backfilled p ownerName).Distinct := hdistinct
      exact keepsTo_mutate_read hdoc rfl Piece.id_joinedBy
        (pieceToFirestore_paired hpaired userId name email given.now)

end Firestore

end Duet
