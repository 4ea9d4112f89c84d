import Duet.Device.Membership
import Duet.Library.State
import Duet.Pairing.Calls
import Duet.ReviewSync.Import

/-!
# Who takes part in a piece

The calls that write the members of the pieces on one device, each run to its end. Only accepting an
invite can put an owner among the collaborators: nothing compares the accepter with the owner.

## Main results

* `Membership.keepsMembers_iff` — the sequences in which no owner becomes a collaborator.
* `Membership.not_keepsMembers` — an owner who accepts an invite for the own piece.
-/

namespace Duet

open Lib Effect Async LocalPieceRepository

/-- A call that writes, or may write, who takes part in a piece. -/
inductive MembershipCall where
  | importPiece (env : Env) (title sourcePath : String) (ownerName : Option String)
  | importBundle (env : Env) (bundle : Option Archive)
  | invite (call : InviteCall)
  | leavePiece (env : Env) (pieceId : String)
  | removeCollaborator (env : Env) (pieceId userId : String)

namespace MembershipCall

/-- The app after the call, failed or not. -/
def perform (sha256 : Content → String) (app : App) : MembershipCall → App
  | importPiece env title sourcePath ownerName =>
    { app with device := ((Duet.importPiece sha256 env title sourcePath ownerName).exec app.device).2 }
  | importBundle env bundle =>
    { app with device := ((Duet.importBundle sha256 env bundle).exec app.device).2 }
  | invite call => (call.program.alone () app).2
  | leavePiece env pieceId =>
    { app with device := ((LocalPieceRepository.leavePiece env pieceId).exec app.device).2 }
  | removeCollaborator env pieceId userId =>
    { app with
      device := ((LocalPieceRepository.removeCollaborator env pieceId userId).exec app.device).2 }

end MembershipCall

namespace Membership

def step (sha256 : Content → String) (app : App) (call : MembershipCall) : Option App :=
  some (call.perform sha256 app)

/-- No owner is a collaborator, nobody takes part in a piece twice, and what a user sees is on
exactly one shelf, in whatever order it is shown. -/
structure KeepsMembers (app : App) : Prop where
  owner : ∀ piece ∈ app.device.pieces, piece.ownerId ∉ piece.collaboratorIds
  distinct : ∀ piece ∈ app.device.pieces, piece.collaboratorIds.Nodup
  participants : ∀ piece ∈ app.device.pieces, piece.participantIds.Nodup
  shelves : ∀ state : LibraryState, state.pieces.Perm (app.device.pieces.filter fun piece =>
      piece.isParticipant state.currentUserId) →
    (state.myPieces ++ state.sharedWithMe).Perm state.pieces

/-- An owner who accepts an invite for the own piece is refused for the cap. -/
def OwnerRefused (app : App) : MembershipCall → Prop
  | .invite (.acceptLink _ token userId _ _) =>
      ∀ invite ∈ (DeepLinkInviteService.requireValid app.invites token).toOption,
        ∀ piece ∈ app.device.findPiece invite.pieceId, userId = piece.ownerId →
          CollaboratorLimits.isAtCap piece app.isPro = true
  | .invite (.acceptMessage _ message userId _ _) =>
      ∀ piece ∈ app.device.findPiece message.pieceId, userId = piece.ownerId →
        CollaboratorLimits.isAtCap piece app.isPro = true
  | _ => True

instance (app : App) (call : MembershipCall) : Decidable (OwnerRefused app call) := by
  cases call with
  | invite call => cases call <;> unfold OwnerRefused <;> infer_instance
  | _ => exact isTrue trivial

/-! ## What the calls do to the pieces -/

/-- Nobody takes part in any of the pieces twice. -/
def Distinct (pieces : List Piece) : Prop := ∀ piece ∈ pieces, piece.participantIds.Nodup

instance (pieces : List Piece) : Decidable (Distinct pieces) :=
  inferInstanceAs (Decidable (∀ piece ∈ pieces, piece.participantIds.Nodup))

theorem keepsMembers_iff_distinct {app : App} :
    KeepsMembers app ↔ Distinct app.device.pieces := by
  refine ⟨fun h => h.participants, fun h => ?_⟩
  have hsplit : ∀ piece ∈ app.device.pieces,
      piece.ownerId ∉ piece.collaboratorIds ∧ piece.collaboratorIds.Nodup :=
    fun piece hpiece => List.nodup_cons.mp (h piece hpiece)
  refine ⟨fun piece hpiece => (hsplit piece hpiece).1, fun piece hpiece => (hsplit piece hpiece).2,
    h, fun state hperm => LibraryState.perm_shelves (fun piece hpiece => ?_)
      fun piece hpiece => ?_⟩
  · exact (List.mem_filter.mp (hperm.mem_iff.mp hpiece)).2
  · exact (hsplit piece (List.mem_filter.mp (hperm.mem_iff.mp hpiece)).1).1

section

variable {pieces : List Piece} {piece updated : Piece}

/-- A piece that is held is replaced: what is held is distinct if the new piece is. -/
theorem distinct_replace (h : Distinct pieces) (hpiece : piece ∈ pieces)
    (hid : piece.id = updated.id) :
    Distinct (pieces.map fun p => if p.id = updated.id then updated else p) ↔
      updated.participantIds.Nodup := by
  constructor
  · intro hdistinct
    exact hdistinct updated (List.mem_map.mpr ⟨piece, hpiece, if_pos hid⟩)
  · intro hupdated p hp
    obtain ⟨old, hold, rfl⟩ := List.mem_map.mp hp
    split_ifs
    · exact hupdated
    · exact h old hold

theorem nodup_without (h : piece.participantIds.Nodup) (userId : String) (now : DateTime) :
    (piece.without userId now).participantIds.Nodup :=
  h.sublist (List.Sublist.cons_cons _ (List.filter_sublist.map _))

theorem distinct_takesOff {after : List Piece} (h : Distinct pieces)
    (htakes : TakesOff pieces after) : Distinct after := by
  obtain rfl | ⟨piece, hpiece, userId, now, rfl⟩ := htakes
  · exact h
  · have hid : piece.id = (piece.without userId now).id := rfl
    exact (distinct_replace h hpiece hid).mpr
      (nodup_without (h piece hpiece) userId now)

/-- A piece that is imported from a bundle belongs to its author, and the importer, who is another
user, collaborates. -/
theorem nodup_importedPiece {sha256 : Content → String} {env : Env} {manifest : ReviewManifest}
    {tempPath : String} {content : Content} :
    (importedPiece sha256 env manifest tempPath content).participantIds.Nodup := by
  rw [importedPiece, Piece.participantIds, Piece.collaboratorIds]
  dsimp only
  split_ifs with hself
  · simp [importedCollaborators]
  · simpa [importedCollaborators] using Ne.symm hself

theorem distinct_registered {sha256 : Content → String} {env : Env} {archive : Archive}
    {manifest : ReviewManifest} (h : registeredPiece? sha256 env manifest archive = some piece) :
    piece.participantIds.Nodup := by
  simp only [registeredPiece?, Option.bind_eq_bind, Option.bind_eq_some_iff] at h
  obtain ⟨pdfFilename, -, content, -, h⟩ := h
  split_ifs at h
  obtain rfl := Option.some.inj h
  exact nodup_importedPiece

/-- A call that goes on from a piece it has resolved does not change which pieces are held. -/
theorem pieces_importBundle {sha256 : Content → String} {env : Env} {bundle : Option Archive}
    {archive : Archive} {manifest : ReviewManifest} {d : Device}
    (h : opened? env bundle = some (archive, manifest)) :
    ((importBundle sha256 env bundle).exec d).2.pieces =
      ((resolvePiece sha256 env manifest archive).exec d).2.pieces := by
  rw [exec_importBundle_of_opened h, exec_bind]
  rcases (resolvePiece sha256 env manifest archive).exec d with ⟨e | piece, t⟩
  · rfl
  · exact pieces_applyUnlessStale env archive manifest piece t

theorem distinct_importBundle {sha256 : Content → String} {env : Env} {bundle : Option Archive}
    {d : Device} (h : Distinct d.pieces) :
    Distinct ((importBundle sha256 env bundle).exec d).2.pieces := by
  cases hopened : opened? env bundle with
  | none =>
    obtain ⟨e, hexec⟩ := exec_importBundle_of_not_opened sha256 hopened d
    rw [hexec]
    exact h
  | some opening =>
    obtain ⟨archive, manifest⟩ := opening
    rw [pieces_importBundle hopened]
    have happend : ∀ piece, registeredPiece? sha256 env manifest archive = some piece →
        Distinct (d.pieces ++ [piece]) := by
      intro piece hpiece p hp
      obtain hold | hnew := List.mem_append.mp hp
      · exact h p hold
      · rw [List.mem_singleton.mp hnew]
        exact distinct_registered hpiece
    obtain ⟨_, -, -, e, hexec⟩ | ⟨_, -, -, hexec⟩ | ⟨-, -, e, files, hexec⟩ |
      ⟨-, piece, hpiece, hends⟩ := resolvePiece_cases sha256 env archive manifest d
    · rw [hexec]
      exact h
    · rw [hexec]
      exact h
    · rw [hexec]
      exact h
    · obtain ⟨-, e, files, hexec⟩ | ⟨-, -, e, files, hexec⟩ | ⟨-, -, -, files, hexec⟩ := hends
      all_goals
        rw [hexec]
        exact happend piece hpiece

/-- Who takes part in a piece once a collaborator has been added. -/
theorem participantIds_added {userId : String} {name email : Option String} {now : DateTime} :
    ({ piece with
      collaborators := withCollaborator piece (resolved piece userId name email)
      updatedAt := now } : Piece).participantIds =
        piece.participantIds ++ if piece.isCollaborator userId then [] else [userId] := by
  have hmap : ((piece.collaborators.map fun c => if c.uid = userId then
      resolved piece userId name email else c).map (·.uid)) = piece.collaboratorIds := by
    rw [List.map_map, Piece.collaboratorIds]
    refine List.map_congr_left fun c _ => ?_
    by_cases hc : c.uid = userId <;> simp [hc]
  simp only [Piece.participantIds, Piece.collaboratorIds, withCollaborator, uid_resolved,
    List.map_append, List.cons_append] at hmap ⊢
  rw [hmap]
  split_ifs <;> simp

/-- An accepter is added: nobody takes part twice unless it is the owner who accepts. -/
theorem distinct_adding {app : App} {userId : String} {name email : Option String} {now : DateTime}
    (h : Distinct app.device.pieces) (hpiece : app.device.findPiece piece.id = some piece) :
    Distinct (adding app now piece userId name email).device.pieces ↔ userId ≠ piece.ownerId := by
  have hmem : piece ∈ app.device.pieces := List.mem_of_find?_eq_some hpiece
  have hdistinct := h piece hmem
  have howner : piece.isCollaborator userId = true → userId ≠ piece.ownerId := by
    intro hin
    rintro rfl
    exact (List.nodup_cons.mp hdistinct).1 (Piece.isCollaborator_iff.mp hin)
  rw [adding]
  split_ifs with hsame
  · refine iff_of_true h (howner ?_)
    exact List.any_eq_true.mpr ⟨_, List.mem_of_find?_eq_some hsame, by simp⟩
  · change Distinct (app.device.pieces.map _) ↔ _
    rw [distinct_replace h hmem (show piece.id = { piece with
      collaborators := withCollaborator piece (resolved piece userId name email)
      updatedAt := now }.id from rfl), participantIds_added]
    split_ifs with hin
    · rw [List.append_nil]
      exact iff_of_true hdistinct (howner hin)
    · have hout : userId ∉ piece.collaboratorIds := fun hmem =>
        hin (Piece.isCollaborator_iff.mpr hmem)
      rw [(List.perm_append_singleton userId piece.participantIds).nodup_iff, List.nodup_cons,
        and_iff_left hdistinct, Piece.participantIds, List.mem_cons, or_iff_left hout]

/-- The owner's name makes no difference to who takes part. -/
theorem distinct_backfilling {app : App} (h : Distinct app.device.pieces)
    (hpiece : app.device.findPiece piece.id = some piece) (ownerName : Option String) :
    Distinct (backfilling piece ownerName app).device.pieces := by
  have hmem : piece ∈ app.device.pieces := List.mem_of_find?_eq_some hpiece
  rw [backfilling]
  split_ifs
  · exact h
  · have hid : piece.id = (backfilled piece ownerName).id := rfl
    exact (distinct_replace h hmem hid).mpr (h piece hmem)

end

/-! ## Runs -/

section

variable {sha256 : Content → String} {app : App} {call : MembershipCall}

theorem distinct_acceptLink {now : DateTime} {token userId : String} {name email : Option String}
    (h : Distinct app.device.pieces) :
    Distinct ((InviteCall.acceptLink now token userId name email).program.alone () app).2.device.pieces
      ↔ OwnerRefused app (.invite (.acceptLink now token userId name email)) := by
  rw [InviteCall.program, alone_bind]
  cases hvalid : DeepLinkInviteService.requireValid app.invites token with
  | error e =>
    refine iff_of_true ?_ (by simp [OwnerRefused, hvalid, Except.toOption])
    rw [DeepLinkInviteService.acceptInvite, alone_get_bind]
    dsimp only
    rw [hvalid]
    exact h
  | ok invite =>
    have hrefused : OwnerRefused app (.invite (.acceptLink now token userId name email)) ↔
        ∀ piece ∈ app.device.findPiece invite.pieceId, userId = piece.ownerId →
          CollaboratorLimits.isAtCap piece app.isPro = true := by
      simp [OwnerRefused, hvalid, Except.toOption]
    rw [hrefused]
    cases hpiece : app.device.findPiece invite.pieceId with
    | none =>
      refine iff_of_true ?_ fun _ hnone => absurd hnone (Option.not_mem_none _)
      rw [DeepLinkInviteService.acceptInvite, alone_get_bind]
      dsimp only
      rw [hvalid, Async.ofExcept_ok, Async.done_bind, alone_bind, alone_awaiting, alone_getPiece,
        getPiece_eq_error hpiece]
      exact h
    | some piece =>
      rw [DeepLinkInviteService.alone_acceptInvite hvalid hpiece]
      simp only [Option.mem_def, Option.some.injEq, forall_eq']
      obtain hid := App.id_of_findPiece hpiece
      rw [← hid] at hpiece
      split_ifs with hcap
      · exact iff_of_true h fun _ => hcap
      · have hfound : (backfilling piece invite.ownerName app).device.findPiece
            (backfilled piece invite.ownerName).id = some (backfilled piece invite.ownerName) :=
          findPiece_backfilling hpiece invite.ownerName
        refine (distinct_adding (distinct_backfilling h hpiece invite.ownerName) hfound).trans ?_
        exact ⟨fun hne howner => absurd howner hne, fun hcapped howner => hcap (hcapped howner)⟩

theorem distinct_acceptMessage {now : DateTime} {message : InviteMessage} {userId : String}
    {name email : Option String} (h : Distinct app.device.pieces) :
    Distinct ((InviteCall.acceptMessage now message userId name email).program.alone ()
      app).2.device.pieces ↔
        OwnerRefused app (.invite (.acceptMessage now message userId name email)) := by
  rw [InviteCall.program, alone_bind]
  cases hpiece : app.device.findPiece message.pieceId with
  | none =>
    refine iff_of_true ?_ fun piece hfound => by rw [hpiece] at hfound; cases hfound
    rw [DefaultCollaboratorInviteService.acceptInvite, alone_bind, alone_awaiting, alone_getPiece,
      getPiece_eq_error hpiece]
    exact h
  | some piece =>
    rw [DefaultCollaboratorInviteService.alone_acceptInvite hpiece]
    simp only [OwnerRefused, hpiece, Option.mem_def, Option.some.injEq, forall_eq']
    obtain hid := App.id_of_findPiece hpiece
    rw [← hid] at hpiece
    have hmem : piece ∈ app.device.pieces := List.mem_of_find?_eq_some hpiece
    have hnot : userId = piece.ownerId → piece.isCollaborator userId = false := by
      rintro rfl
      rw [← Bool.not_eq_true, Piece.isCollaborator_iff]
      exact (List.nodup_cons.mp (h piece hmem)).1
    split_ifs with hcap
    · exact iff_of_true h fun _ => (Bool.and_eq_true_iff.mp hcap).2
    · refine (distinct_adding h hpiece).trans ?_
      rw [ne_eq, ← imp_false]
      refine forall_congr' fun howner => ?_
      rw [hnot howner] at hcap
      simpa using hcap

/-- Inviting somebody changes no piece. -/
theorem pieces_createInvite {token ownerId pieceId : String} {now : DateTime}
    {ownerName : Option String} :
    ((InviteCall.createInvite token now ownerId pieceId ownerName).program.alone ()
      app).2.device.pieces = app.device.pieces := by
  rw [InviteCall.program, alone_bind, DeepLinkInviteService.createInvite, alone_bind, alone_awaiting,
    alone_getPiece]
  cases (app.device.getPiece pieceId).mapError AppFailure.device with
  | error e => rfl
  | ok piece =>
    dsimp only
    split_ifs
    · rfl
    rw [alone_bind, alone_isProUser]
    dsimp only
    split_ifs <;> rfl

theorem pieces_resolveInvite {token : String} :
    ((InviteCall.resolveInvite token).program.alone () app).2.device.pieces = app.device.pieces := by
  rw [InviteCall.program, alone_bind, DeepLinkInviteService.resolveInvite, alone_get_bind]
  cases DeepLinkInviteService.requireValid app.invites token with
  | error e => rfl
  | ok invite =>
    rw [Async.ofExcept_ok, Async.done_bind, alone_bind, alone_awaiting, alone_getPiece]
    cases (app.device.getPiece invite.pieceId).mapError AppFailure.device <;> rfl

theorem distinct_perform (h : Distinct app.device.pieces) :
    Distinct (call.perform sha256 app).device.pieces ↔ OwnerRefused app call := by
  cases call with
  | importPiece env title sourcePath ownerName =>
    refine iff_of_true (fun piece hpiece => ?_) trivial
    obtain hold | ⟨-, hnone⟩ := pieces_importPiece sha256 env title sourcePath ownerName _ piece hpiece
    · exact h piece hold
    · simp [Piece.participantIds, Piece.collaboratorIds, hnone]
  | importBundle env bundle => exact iff_of_true (distinct_importBundle h) trivial
  | invite call =>
    cases call with
    | createInvite token now ownerId pieceId ownerName =>
      exact iff_of_true (pieces_createInvite.symm ▸ h) trivial
    | resolveInvite token => exact iff_of_true (pieces_resolveInvite.symm ▸ h) trivial
    | acceptLink now token userId name email => exact distinct_acceptLink h
    | acceptMessage now message userId name email => exact distinct_acceptMessage h
  | leavePiece env pieceId => exact iff_of_true (distinct_takesOff h takesOff_leavePiece) trivial
  | removeCollaborator env pieceId userId =>
    exact iff_of_true (distinct_takesOff h takesOff_removeCollaborator) trivial

/-- A sequence of calls keeps the members apart exactly when every owner who accepts an invite for
the own piece is refused for the cap. -/
theorem keepsMembers_iff {calls : List MembershipCall} (h : KeepsMembers app) :
    Always (step sha256) KeepsMembers app calls ↔ EachStep (step sha256) OwnerRefused app calls := by
  refine always_iff_eachStep (I := fun _ => True) (fun _ _ _ _ _ _ => trivial)
    (fun s call t _ hs hstep => ?_) (fun s call hstep => by cases hstep) trivial h
  obtain rfl := Option.some.inj hstep
  rw [keepsMembers_iff_distinct] at hs ⊢
  exact distinct_perform hs

end

/-! ## An invite that its owner accepts -/

/-- Ann's piece, with an invite that has not been used. -/
def annsShared : App :=
  let piece : Piece := ⟨"p", "Etude", "c0ffee", "p.pdf", "ann", some "Ann", [], noon, noon⟩
  ⟨{ Device.fresh with pieces := [piece] }, [], [⟨"token", "p", "ann", none, 0, false⟩], false⟩

theorem keepsMembers_annsShared : KeepsMembers annsShared := by
  rw [keepsMembers_iff_distinct]
  decide +kernel

/-- Bob joins and leaves again. -/
theorem keepsMembers_iff_annsShared :
    Always (step fun _ => "c0ffee") KeepsMembers annsShared
      [.invite (.acceptLink noon "token" "bob" none none), .leavePiece (.quiet "bob" noon) "p"] :=
  (keepsMembers_iff keepsMembers_annsShared).mpr (by decide +kernel)

/-- Ann accepts the invite for her own piece, and collaborates on it. -/
theorem not_keepsMembers : ¬∀ (sha256 : Content → String) (app : App) (calls : List MembershipCall),
    KeepsMembers app → Always (step sha256) KeepsMembers app calls := by
  intro hall
  have hkeeps := hall (fun _ => "c0ffee") annsShared
    [.invite (.acceptLink noon "token" "ann" none none)] keepsMembers_annsShared
  have hdistinct := keepsMembers_iff_distinct.mp (hkeeps.2 _ rfl)
  exact absurd hdistinct (by decide +kernel)

end Membership

end Duet
