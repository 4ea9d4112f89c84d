import Duet.Pairing.Services

/-!
# The two ways to accept an invite

A pending invite is accepted by its link or by the message in the inbox. Both check the cap before
the collaborator is added, the link also for a user who collaborates already.

## Main results

* `acceptsAgree_iff` — the two agree unless the user collaborates on a piece that is at its cap.
* `not_acceptsAgree` — a collaborator of a full piece, whose link is refused.
-/

namespace Duet

open Lib Async LocalPieceRepository

/-- How an accept ends. -/
inductive AcceptOutcome where
  | accepted
  | rejectedForCap
  | failed
  deriving DecidableEq, Repr

/-- The outcome as a user sees it. -/
def acceptOutcome : Except AppFailure Unit → AcceptOutcome
  | .ok _ => .accepted
  | .error (.inviteException message) =>
    if message = CollaboratorLimits.message then .rejectedForCap else .failed
  | .error (.atCapInviteException _) => .rejectedForCap
  | .error (.device _) => .failed

/-- Two accepts of a piece have the same outcome and, when accepted, leave the same collaborators on
the piece. -/
def AcceptsAgree (pieceId : String) (r r' : Except AppFailure Unit × App) : Prop :=
  acceptOutcome r.1 = acceptOutcome r'.1 ∧ (acceptOutcome r.1 = .accepted →
    (r.2.device.findPiece pieceId).map (·.collaborators) =
      (r'.2.device.findPiece pieceId).map (·.collaborators))

section

variable {app : App} {piece : Piece} {invite : StoredInvite} {message : InviteMessage}
  {token userId : String} {name email : Option String} {now : DateTime}

/-- Filling in the owner's name adds the same collaborator. -/
theorem added_backfilled (ownerName : Option String) :
    added (backfilled piece ownerName) userId name email = added piece userId name email := rfl

/-- What an accept by link leaves of the collaborators. -/
theorem collaborators_acceptLink
    (hpiece : app.device.findPiece invite.pieceId = some piece) (invites : List StoredInvite) :
    (({ adding (backfilling piece invite.ownerName app) now (backfilled piece invite.ownerName)
      userId name email with invites := invites } : App).device.findPiece invite.pieceId).map
        (·.collaborators) = some (added piece userId name email) := by
  rw [← added_backfilled invite.ownerName]
  exact collaborators_adding (findPiece_backfilling hpiece invite.ownerName)

/-- The two ways agree exactly when the user does not collaborate on a piece that is at its cap. -/
theorem acceptsAgree_iff (hvalid : DeepLinkInviteService.requireValid app.invites token = .ok invite)
    (hmessage : message.pieceId = invite.pieceId) :
    AcceptsAgree invite.pieceId
        ((DeepLinkInviteService.acceptInvite now token userId name email).alone () app)
        ((DefaultCollaboratorInviteService.acceptInvite now message userId name email).alone () app) ↔
      ∀ piece, app.device.findPiece invite.pieceId = some piece →
        ¬(piece.isCollaborator userId = true ∧
          CollaboratorLimits.isAtCap piece app.isPro = true) := by
  cases hpiece : app.device.findPiece invite.pieceId with
  | none =>
    -- the piece is unknown to both
    refine iff_of_true ?_ fun piece h => by cases h
    rw [DeepLinkInviteService.acceptInvite, DefaultCollaboratorInviteService.acceptInvite,
      alone_get_bind]
    dsimp only
    rw [hvalid, ofExcept_ok, done_bind, alone_bind, alone_bind, alone_awaiting, alone_awaiting,
      alone_getPiece, alone_getPiece, hmessage, getPiece_eq_error hpiece]
    exact ⟨rfl, fun _ => rfl⟩
  | some piece =>
    rw [DeepLinkInviteService.alone_acceptInvite hvalid hpiece,
      DefaultCollaboratorInviteService.alone_acceptInvite (hmessage ▸ hpiece)]
    simp only [Option.some.injEq, forall_eq']
    by_cases hcap : CollaboratorLimits.isAtCap piece app.isPro = true
    · by_cases hin : piece.isCollaborator userId = true
      · refine iff_of_false (fun hagree => ?_) fun hnot => hnot ⟨hin, hcap⟩
        simp [AcceptsAgree, acceptOutcome, hcap, hin] at hagree
      · refine iff_of_true ?_ fun hboth => hin hboth.1
        simp [AcceptsAgree, acceptOutcome, hcap, hin]
    · refine iff_of_true ?_ fun hboth => hcap hboth.2
      rw [if_neg hcap, if_neg (by simp [hcap])]
      exact ⟨rfl, fun _ => (collaborators_acceptLink hpiece _).trans
        (collaborators_adding hpiece).symm⟩

end

/-! ## A collaborator of a full piece -/

/-- Ann's piece, on which bob collaborates, and an invite for it that has not been used. -/
def annsFullPiece : App :=
  let piece : Piece := ⟨"p", "Etude", "c0ffee", "p.pdf", "ann", some "Ann", [⟨"bob", none, none⟩],
    noon, noon⟩
  ⟨{ Device.fresh with pieces := [piece] }, [], [⟨"token", "p", "ann", none, 0, false⟩], false⟩

/-- A user who does not collaborate is refused by both. -/
theorem acceptsAgree_iff_annsFullPiece :
    AcceptsAgree "p"
        ((DeepLinkInviteService.acceptInvite noon "token" "cid" none none).alone () annsFullPiece)
        ((DefaultCollaboratorInviteService.acceptInvite noon ⟨"m", "p", "ann", none⟩ "cid" none
          none).alone () annsFullPiece) ↔
      ∀ piece, annsFullPiece.device.findPiece "p" = some piece →
        ¬(piece.isCollaborator "cid" = true ∧
          CollaboratorLimits.isAtCap piece annsFullPiece.isPro = true) := by
  have hvalid : DeepLinkInviteService.requireValid annsFullPiece.invites "token" =
      .ok ⟨"token", "p", "ann", none, 0, false⟩ := by decide +kernel
  have hmessage : InviteMessage.pieceId ⟨"m", "p", "ann", none⟩ =
      StoredInvite.pieceId ⟨"token", "p", "ann", none, 0, false⟩ := rfl
  exact acceptsAgree_iff hvalid hmessage

/-- Bob collaborates already; his link is refused for the cap, his message is not. -/
theorem not_acceptsAgree : ¬∀ (app : App) token invite (message : InviteMessage) userId name email now,
    DeepLinkInviteService.requireValid app.invites token = .ok invite →
      message.pieceId = invite.pieceId →
        AcceptsAgree invite.pieceId
          ((DeepLinkInviteService.acceptInvite now token userId name email).alone () app)
          ((DefaultCollaboratorInviteService.acceptInvite now message userId name email).alone ()
            app) := by
  intro hall
  have hagree := hall annsFullPiece "token" ⟨"token", "p", "ann", none, 0, false⟩
    ⟨"m", "p", "ann", none⟩ "bob" none none noon (by decide +kernel) rfl
  exact absurd hagree.1 (by decide +kernel)

end Duet
