import Duet.Pairing.Services

/-!
# Calls on the invite services

The calls that one isolate runs, and what they do to the ledger of invites between two awaits.

## Main results

* `follows_ledger` — the segments in which a call writes the ledger: a created invite is appended to
  the ledger as it is, an accepted one is consumed in the ledger that the call has loaded.
-/

namespace Duet

open Lib Async LocalPieceRepository

/-- A call on an invite service; a created invite gets the given token. -/
inductive InviteCall where
  | createInvite (token : String) (now : DateTime) (ownerId pieceId : String)
      (ownerName : Option String)
  | resolveInvite (token : String)
  | acceptLink (now : DateTime) (token collaboratorId : String)
      (collaboratorName collaboratorEmail : Option String)
  | acceptMessage (now : DateTime) (invite : InviteMessage) (accepterId : String)
      (accepterName accepterEmail : Option String)
  deriving DecidableEq, Repr

/-- What a call returns. -/
inductive InviteReply where
  | link (link : InviteLink)
  | details (details : InviteDetails)
  | accepted
  deriving DecidableEq, Repr

namespace InviteCall

def program : InviteCall → AppCall InviteReply
  | createInvite token now ownerId pieceId ownerName => do
    let link ← DeepLinkInviteService.createInvite token now ownerId pieceId ownerName
    done (.link link)
  | resolveInvite token => do
    let details ← DeepLinkInviteService.resolveInvite token
    done (.details details)
  | acceptLink now token collaboratorId collaboratorName collaboratorEmail => do
    DeepLinkInviteService.acceptInvite now token collaboratorId collaboratorName collaboratorEmail
    done .accepted
  | acceptMessage now invite accepterId accepterName accepterEmail => do
    DefaultCollaboratorInviteService.acceptInvite now invite accepterId accepterName accepterEmail
    done .accepted

/-- The token of the invite that the call creates. -/
def creates? : InviteCall → Option String
  | createInvite token _ _ _ _ => some token
  | _ => none

/-- The token of the invite that the call accepts. -/
def accepts? : InviteCall → Option String
  | acceptLink _ token _ _ _ => some token
  | _ => none

end InviteCall

/-- The calls on the services of one app. -/
abbrev Pairing := Lib.Isolate InviteCall AppAwait Unit App AppFailure InviteReply

abbrev PairingEvent := Lib.IsolateEvent InviteCall Unit

/-- One event; what is in the preferences survives a kill. -/
def Pairing.step (s : Pairing) : PairingEvent → Option Pairing :=
  Lib.Isolate.step InviteCall.program id s

/-! ## What a call does to the ledger -/

/-- Where a call stops that has neither written the ledger nor succeeded. -/
def Idle (stop : Stop AppAwait AppFailure InviteReply) : Prop :=
  stop ≠ .waits .persist ∧ ∀ reply, stop ≠ .ends (.ok reply)

/-- The invite that a call creates. -/
def newInvite (token : String) (now : DateTime) (ownerId pieceId : String)
    (ownerName : Option String) : StoredInvite :=
  ⟨token, pieceId, ownerId, ownerName, now.millisecondsSinceEpoch, false⟩

/-- What a call does to the ledger in the segment from a point. -/
def LedgerSegment (call : InviteCall) (from? : Option AppAwait) (s : App)
    (stop : Stop AppAwait AppFailure InviteReply) (t : App) : Prop :=
  match call, from? with
  | .createInvite token now ownerId pieceId ownerName, some (.isProUser _ _) =>
    Idle stop ∧ t.invites = s.invites ∨ stop = .waits .persist ∧
      t.invites = s.invites ++ [newInvite token now ownerId pieceId ownerName]
  | .createInvite token _ ownerId pieceId _, some .persist =>
    stop = .ends (.ok (.link ⟨token, pieceId, ownerId⟩)) ∧ t.invites = s.invites
  | .acceptLink _ token _ _ _, some (.pairCollaborator invites) =>
    Idle stop ∧ t.invites = s.invites ∨ stop = .waits .persist ∧
      (∃ invite, DeepLinkInviteService.requireValid invites token = .ok invite) ∧
        t.invites = DeepLinkInviteService.consume invites token
  | .acceptLink _ _ _ _ _, some .persist => stop = .ends (.ok .accepted) ∧ t.invites = s.invites
  | .resolveInvite _, _ | .acceptMessage _ _ _ _ _, _ =>
    stop ≠ .waits .persist ∧ t.invites = s.invites
  | _, _ => Idle stop ∧ t.invites = s.invites

/-! ## The segments of the members -/

section

variable {from? : Option AppAwait} {s₀ s : App} {pieceId userId : String}
  {name email : Option String} {now : DateTime}

theorem follows_getPiece {seg : Option AppAwait → App → Stop AppAwait AppFailure Piece → App → Prop} :
    (getPiece pieceId).Follows seg from? s₀ s ↔
      seg from? s₀ (.ends ((s.device.getPiece pieceId).mapError .device)) s := follows_ofExcept

theorem follows_isProUser {piece : Piece}
    {seg : Option AppAwait → App → Stop AppAwait AppFailure Bool → App → Prop} :
    (isProUser piece).Follows seg from? s₀ s ↔ seg from? s₀ (.waits (.isProUser piece s.isPro)) s ∧
      ∀ t, seg (some (.isProUser piece s.isPro)) t (.ends (.ok s.isPro)) t :=
  and_congr .rfl (forall_congr' fun _ => forall_const _)

theorem follows_persist {invites : List StoredInvite}
    {seg : Option AppAwait → App → Stop AppAwait AppFailure Unit → App → Prop} :
    (DeepLinkInviteService.persist invites).Follows seg from? s₀ s ↔
      seg from? s₀ (.waits .persist) { s with invites := invites } ∧
        ∀ t, seg (some .persist) t (.ends (.ok ())) t :=
  and_congr .rfl (forall_congr' fun _ => ⟨fun h => h (), fun h _ => h⟩)

/-- A collaborator is added before the call stops for the first time. -/
theorem follows_addCollaborator
    {seg : Option AppAwait → App → Stop AppAwait AppFailure Unit → App → Prop}
    (hunknown : s.device.findPiece pieceId = none → ∀ e, seg from? s₀ (.ends (.error e)) s)
    (hadded : ∀ piece, s.device.findPiece pieceId = some piece →
      ∀ stop, stop = .ends (.ok ()) ∨ stop = .waits .emit →
        seg from? s₀ stop (adding s now piece userId name email))
    (hemit : ∀ t, seg (some .emit) t (.ends (.ok ())) t) :
    (addCollaborator now pieceId userId name email).Follows seg from? s₀ s := by
  rw [addCollaborator, follows_bind, follows_getPiece]
  cases hpiece : s.device.findPiece pieceId with
  | none =>
    rw [getPiece_eq_error hpiece]
    exact hunknown hpiece _
  | some piece =>
    rw [getPiece_eq hpiece]
    have hall := hadded piece hpiece
    simp only [Stop.Then, adding] at hall ⊢
    split_ifs at hall ⊢
    · exact hall _ (.inl rfl)
    · exact ⟨hall _ (.inr rfl), fun t _ => hemit t⟩

/-- A collaborator is paired before the call stops for the first time. -/
theorem follows_pairCollaborator {ownerName : Option String}
    {seg : Option AppAwait → App → Stop AppAwait AppFailure Piece → App → Prop}
    (hunknown : s.device.findPiece pieceId = none → ∀ e, seg from? s₀ (.ends (.error e)) s)
    (hadded : ∀ piece, s.device.findPiece pieceId = some piece →
      ∀ stop, stop = .waits .emit ∨ stop = .waits .addCollaborator →
        seg from? s₀ stop (adding (backfilling piece ownerName s) now (backfilled piece ownerName)
          userId name email))
    (hemit : ∀ t, seg (some .emit) t (.waits .addCollaborator) t)
    (hends : ∀ t outcome, seg (some .addCollaborator) t (.ends outcome) t) :
    (pairCollaborator now pieceId userId name email ownerName).Follows seg from? s₀ s := by
  rw [pairCollaborator, follows_bind, follows_getPiece]
  cases hpiece : s.device.findPiece pieceId with
  | none =>
    rw [getPiece_eq_error hpiece]
    exact hunknown hpiece _
  | some piece =>
    rw [getPiece_eq hpiece]
    have hfound := findPiece_backfilling hpiece ownerName
    have hrest : ∀ t (outcome : Except AppFailure Unit),
        Stop.Then seg (fun _ => getPiece pieceId) (some .addCollaborator) t (.ends outcome) t := by
      intro t outcome
      cases outcome with
      | error e => exact hends t _
      | ok _ => exact follows_getPiece.mpr (hends t _)
    change Follows seg from? s₀ _ _
    rw [follows_modify_bind, follows_bind, follows_awaiting]
    refine follows_addCollaborator (fun hnone => ?_) (fun found hfound' stop hstop => ?_) fun t => ?_
    · rw [hfound] at hnone
      cases hnone
    · obtain rfl := Option.some.inj (hfound.symm.trans hfound')
      obtain rfl | rfl := hstop
      · exact ⟨hadded piece hpiece _ (.inr rfl), fun t => hrest t _⟩
      · exact hadded piece hpiece _ (.inl rfl)
    · exact ⟨hemit t, fun t => hrest t _⟩

@[simp] theorem invites_adding {piece : Piece} :
    (adding s now piece userId name email).invites = s.invites := by
  rw [adding]
  split_ifs <;> rfl

@[simp] theorem invites_backfilling {piece : Piece} {ownerName : Option String} :
    (backfilling piece ownerName s).invites = s.invites := by
  rw [backfilling]
  split_ifs <;> rfl

end

/-! ## The segments that write the ledger -/

attribute [local simp] Stop.Then Stop.Awaited LedgerSegment Idle

section

variable {token pieceId userId : String} {now : DateTime} {name email : Option String} {s : App}

theorem follows_createInvite (ownerId : String) (ownerName : Option String) :
    (InviteCall.createInvite token now ownerId pieceId ownerName).program.Follows
      (LedgerSegment (.createInvite token now ownerId pieceId ownerName)) none s s := by
  rw [InviteCall.program, follows_bind, DeepLinkInviteService.createInvite, follows_bind,
    follows_awaiting, follows_getPiece]
  refine ⟨by simp, fun t => ?_⟩
  cases (s.device.getPiece pieceId).mapError AppFailure.device with
  | error e => simp
  | ok piece =>
    simp only [Stop.Then]
    split_ifs
    · simp
    rw [follows_bind, follows_isProUser]
    refine ⟨by simp, fun u => ?_⟩
    simp only [Stop.Then]
    split_ifs
    · simp
    · rw [follows_get_bind, follows_bind, follows_persist]
      simp [newInvite]

theorem follows_resolveInvite : (InviteCall.resolveInvite token).program.Follows
    (LedgerSegment (.resolveInvite token)) none s s := by
  rw [InviteCall.program, follows_bind, DeepLinkInviteService.resolveInvite, follows_get_bind,
    follows_bind, follows_ofExcept]
  cases DeepLinkInviteService.requireValid s.invites token with
  | error e => simp
  | ok invite =>
    simp only [Stop.Then]
    rw [follows_bind, follows_awaiting, follows_getPiece]
    refine ⟨by simp, fun t => ?_⟩
    cases (s.device.getPiece invite.pieceId).mapError AppFailure.device <;> simp

theorem follows_acceptLink : (InviteCall.acceptLink now token userId name email).program.Follows
    (LedgerSegment (.acceptLink now token userId name email)) none s s := by
  rw [InviteCall.program, follows_bind, DeepLinkInviteService.acceptInvite, follows_get_bind]
  dsimp only
  rw [follows_bind, follows_ofExcept]
  cases hvalid : DeepLinkInviteService.requireValid s.invites token with
  | error e => simp
  | ok invite =>
    simp only [Stop.Then]
    rw [follows_bind, follows_awaiting, follows_getPiece]
    refine ⟨by simp, fun t => ?_⟩
    cases (s.device.getPiece invite.pieceId).mapError AppFailure.device with
    | error e => simp
    | ok piece =>
      simp only [Stop.Then]
      rw [follows_bind, follows_isProUser]
      refine ⟨by simp, fun u => ?_⟩
      simp only [Stop.Then]
      split_ifs
      · simp
      rw [follows_bind, follows_awaiting]
      -- the ledger that has been loaded waits while the collaborator is paired
      have hwrites : ∀ v (outcome : Except AppFailure Piece), Stop.Then
          (Stop.Then (LedgerSegment (.acceptLink now token userId name email)) fun _ =>
            (done .accepted : AppCall InviteReply))
          (fun _ => DeepLinkInviteService.persist (DeepLinkInviteService.consume s.invites token))
          (some (.pairCollaborator s.invites)) v (.ends outcome) v := by
        intro v outcome
        cases outcome with
        | error e => simp
        | ok _ =>
          simp only [Stop.Then]
          rw [follows_persist]
          simp [hvalid]
      refine follows_pairCollaborator (fun _ e => ⟨by simp, fun v => hwrites v _⟩)
        (fun found _ stop hstop => ?_) (fun v => ?_) fun v outcome => ⟨by simp, fun w => hwrites w _⟩
      · obtain rfl | rfl := hstop <;> simp
      · simp

theorem follows_acceptMessage {invite : InviteMessage} :
    (InviteCall.acceptMessage now invite userId name email).program.Follows
      (LedgerSegment (.acceptMessage now invite userId name email)) none s s := by
  rw [InviteCall.program, follows_bind, DefaultCollaboratorInviteService.acceptInvite, follows_bind,
    follows_awaiting, follows_getPiece]
  refine ⟨by simp, fun t => ?_⟩
  cases (s.device.getPiece invite.pieceId).mapError AppFailure.device with
  | error e => simp
  | ok piece =>
    simp only [Stop.Then]
    rw [follows_bind, follows_isProUser]
    refine ⟨by simp, fun u => ?_⟩
    simp only [Stop.Then]
    split_ifs
    · simp
    rw [follows_awaiting]
    refine follows_addCollaborator (fun _ e => by simp) (fun found _ stop hstop => ?_)
      fun v => by simp
    obtain rfl | rfl := hstop <;> simp

/-- Every call writes the ledger as its segments say. -/
theorem follows_ledger (call : InviteCall) (s : App) :
    call.program.Follows (LedgerSegment call) none s s := by
  cases call with
  | createInvite => exact follows_createInvite _ _
  | resolveInvite => exact follows_resolveInvite
  | acceptLink => exact follows_acceptLink
  | acceptMessage => exact follows_acceptMessage

end

end Duet
