import Duet.Pairing.Calls

/-!
# The cap on collaborators

Both services check the cap on the piece that they have read, then await the tier, and then let the
repository add the collaborator, whatever has been added meanwhile.

## Main results

* `Pairing.withinCap_iff` — the runs in which a piece stays within its cap.
* `Pairing.not_withinCap` — two accepters of one piece with a free place.
-/

namespace Duet

open Lib Async LocalPieceRepository

/-- The number of collaborators of a piece. -/
def App.size (app : App) (pieceId : String) : Option Nat :=
  (app.device.findPiece pieceId).map (·.collaborators.length)

/-- The number of collaborators once a user is one of them. -/
def App.sizeWith (app : App) (pieceId userId : String) : Option Nat :=
  (app.device.findPiece pieceId).map fun piece =>
    piece.collaborators.length + if piece.isCollaborator userId then 0 else 1

/-- The user whom the call adds, when it has read this piece and this tier. -/
def InviteCall.admits? (piece : Piece) (isPro : Bool) : InviteCall → Option String
  | acceptLink _ _ collaboratorId _ _ =>
    if CollaboratorLimits.isAtCap piece isPro then none else some collaboratorId
  | acceptMessage _ _ accepterId _ _ =>
    if !piece.isCollaborator accepterId && CollaboratorLimits.isAtCap piece isPro then none
    else some accepterId
  | _ => none

/-- What a call does to the sizes of the pieces in the segment from a point. -/
def SizeSegment (call : InviteCall) (from? : Option AppAwait) (s : App)
    (_ : Stop AppAwait AppFailure InviteReply) (t : App) : Prop :=
  t.isPro = s.isPro ∧
    match from? with
    | some (.isProUser piece isPro) =>
      match call.admits? piece isPro with
      | some userId => ∀ id, t.size id = if id = piece.id then s.sizeWith id userId else s.size id
      | none => ∀ id, t.size id = s.size id
    | _ => ∀ id, t.size id = s.size id

/-! ## The sizes once a collaborator is added -/

section

variable {app : App} {piece : Piece} {userId : String} {name email : Option String}
  {now : DateTime}

theorem length_added :
    (added piece userId name email).length =
      piece.collaborators.length + if piece.isCollaborator userId then 0 else 1 := by
  rw [added]
  split_ifs with hsame hin hin
  · rfl
  · have hmem := List.mem_of_find?_eq_some hsame
    exact absurd (List.any_eq_true.mpr ⟨_, hmem, by simp⟩) hin
  · simp [withCollaborator, hin]
  · simp [withCollaborator, hin]

/-- A piece that is replaced has the new size, the others keep theirs. -/
theorem size_replacePiece {updated : Piece} (h : app.device.findPiece updated.id = some piece)
    (id : String) : (app.replacePiece updated).size id =
      if id = updated.id then some updated.collaborators.length else app.size id := by
  rw [App.size]
  split_ifs with hid
  · rw [hid, App.findPiece_replacePiece h, Option.map_some]
  · rw [App.findPiece_replacePiece_of_ne hid, App.size]

theorem size_adding (h : app.device.findPiece piece.id = some piece) (id : String) :
    (adding app now piece userId name email).size id =
      if id = piece.id then app.sizeWith id userId else app.size id := by
  have hadded := congrArg (Option.map List.length)
    (@collaborators_adding app piece piece.id userId name email now h)
  rw [Option.map_map, Option.map_some, length_added] at hadded
  by_cases hid : id = piece.id
  · rw [if_pos hid, hid, App.sizeWith, h, Option.map_some, ← hadded, App.size]
    rfl
  · rw [if_neg hid, adding]
    split_ifs
    · rfl
    · exact congrArg (Option.map fun p : Piece => p.collaborators.length)
        (App.findPiece_replacePiece_of_ne hid)

theorem size_backfilling (h : app.device.findPiece piece.id = some piece)
    (ownerName : Option String) (id : String) :
    (backfilling piece ownerName app).size id = app.size id := by
  rw [backfilling]
  split_ifs
  · rfl
  · have hfound : app.device.findPiece (backfilled piece ownerName).id = some piece := h
    rw [size_replacePiece hfound]
    split_ifs with hid
    · rw [hid, App.size, show (backfilled piece ownerName).id = piece.id from rfl, h]
      rfl
    · rfl

theorem sizeWith_backfilling (h : app.device.findPiece piece.id = some piece)
    (ownerName : Option String) :
    (backfilling piece ownerName app).sizeWith piece.id userId = app.sizeWith piece.id userId := by
  rw [App.sizeWith, findPiece_backfilling h, App.sizeWith, h]
  rfl

@[simp] theorem isPro_adding : (adding app now piece userId name email).isPro = app.isPro := by
  rw [adding]
  split_ifs <;> rfl

@[simp] theorem isPro_backfilling {ownerName : Option String} :
    (backfilling piece ownerName app).isPro = app.isPro := by
  rw [backfilling]
  split_ifs <;> rfl

/-- Pairing adds the collaborator to the piece that is found. -/
theorem size_pairing (h : app.device.findPiece piece.id = some piece) (ownerName : Option String)
    (id : String) : (adding (backfilling piece ownerName app) now (backfilled piece ownerName) userId
      name email).size id = if id = piece.id then app.sizeWith id userId else app.size id := by
  have hfound := findPiece_backfilling h ownerName
  rw [size_adding hfound, size_backfilling h]
  change (if id = piece.id then _ else _) = _
  split_ifs with hid
  · rw [hid, sizeWith_backfilling h]
  · rfl

end

/-! ## The segments of the calls -/

section

variable {token pieceId userId : String} {now : DateTime} {name email : Option String} {s t : App}
  {call : InviteCall} {piece : Piece} {isPro : Bool} (stop : Stop AppAwait AppFailure InviteReply)

theorem sizeSegment_of_admits (h : call.admits? piece isPro = some userId)
    (hisPro : t.isPro = s.isPro)
    (hsize : ∀ id, t.size id = if id = piece.id then s.sizeWith id userId else s.size id) :
    SizeSegment call (some (.isProUser piece isPro)) s stop t := by
  refine ⟨hisPro, ?_⟩
  dsimp only
  rw [h]
  exact hsize

theorem sizeSegment_of_refuses (h : call.admits? piece isPro = none) :
    SizeSegment call (some (.isProUser piece isPro)) s stop s := by
  refine ⟨rfl, ?_⟩
  dsimp only
  rw [h]
  exact fun _ => rfl

/-- Nobody is added to a piece that is not there. -/
theorem sizeWith_of_none {app : App} (h : app.device.findPiece pieceId = none) (id : String) :
    app.size id = if id = pieceId then app.sizeWith id userId else app.size id := by
  split_ifs with hid
  · rw [hid, App.size, App.sizeWith, h, Option.map_none, Option.map_none]
  · rfl

theorem size_createInvite (ownerId : String) (ownerName : Option String) :
    (InviteCall.createInvite token now ownerId pieceId ownerName).program.Follows
      (SizeSegment (.createInvite token now ownerId pieceId ownerName)) none s s := by
  rw [InviteCall.program, follows_bind, DeepLinkInviteService.createInvite, follows_bind,
    follows_awaiting, follows_getPiece]
  refine ⟨⟨rfl, fun _ => rfl⟩, fun t => ?_⟩
  cases (s.device.getPiece pieceId).mapError AppFailure.device with
  | error e => exact ⟨rfl, fun _ => rfl⟩
  | ok piece =>
    simp only [Stop.Then]
    split_ifs
    · exact ⟨rfl, fun _ => rfl⟩
    rw [follows_bind, follows_isProUser]
    refine ⟨⟨rfl, fun _ => rfl⟩, fun u => ?_⟩
    simp only [Stop.Then]
    split_ifs
    · exact ⟨rfl, fun _ => rfl⟩
    · rw [follows_get_bind, follows_bind, follows_persist]
      exact ⟨⟨rfl, fun _ => rfl⟩, fun v => ⟨rfl, fun _ => rfl⟩⟩

theorem size_resolveInvite : (InviteCall.resolveInvite token).program.Follows
    (SizeSegment (.resolveInvite token)) none s s := by
  rw [InviteCall.program, follows_bind, DeepLinkInviteService.resolveInvite, follows_get_bind,
    follows_bind, follows_ofExcept]
  cases DeepLinkInviteService.requireValid s.invites token with
  | error e => exact ⟨rfl, fun _ => rfl⟩
  | ok invite =>
    simp only [Stop.Then]
    rw [follows_bind, follows_awaiting, follows_getPiece]
    refine ⟨⟨rfl, fun _ => rfl⟩, fun t => ?_⟩
    cases (s.device.getPiece invite.pieceId).mapError AppFailure.device <;>
      exact ⟨rfl, fun _ => rfl⟩

theorem size_acceptLink : (InviteCall.acceptLink now token userId name email).program.Follows
    (SizeSegment (.acceptLink now token userId name email)) none s s := by
  rw [InviteCall.program, follows_bind, DeepLinkInviteService.acceptInvite, follows_get_bind]
  dsimp only
  rw [follows_bind, follows_ofExcept]
  cases DeepLinkInviteService.requireValid s.invites token with
  | error e => exact ⟨rfl, fun _ => rfl⟩
  | ok invite =>
    simp only [Stop.Then]
    rw [follows_bind, follows_awaiting, follows_getPiece]
    refine ⟨⟨rfl, fun _ => rfl⟩, fun t => ?_⟩
    cases hread : s.device.findPiece invite.pieceId with
    | none =>
      rw [getPiece_eq_error hread]
      exact ⟨rfl, fun _ => rfl⟩
    | some piece =>
      have hid := App.id_of_findPiece hread
      rw [getPiece_eq hread]
      simp only [Stop.Then]
      rw [follows_bind, follows_isProUser]
      refine ⟨⟨rfl, fun _ => rfl⟩, fun u => ?_⟩
      simp only [Stop.Then]
      split_ifs with hcap
      · exact sizeSegment_of_refuses (.ends (.error (.inviteException CollaboratorLimits.message)))
          (if_pos hcap)
      have hadmits : (InviteCall.acceptLink now token userId name email).admits? piece t.isPro =
          some userId := if_neg hcap
      rw [← hid, follows_bind, follows_awaiting]
      have hwrites : ∀ v (outcome : Except AppFailure Piece), Stop.Then
          (Stop.Then (SizeSegment (.acceptLink now token userId name email)) fun _ =>
            (done .accepted : AppCall InviteReply))
          (fun _ => DeepLinkInviteService.persist (DeepLinkInviteService.consume s.invites token))
          (some (.pairCollaborator s.invites)) v (.ends outcome) v := by
        intro v outcome
        cases outcome with
        | error e => exact ⟨rfl, fun _ => rfl⟩
        | ok _ =>
          simp only [Stop.Then]
          rw [follows_persist]
          exact ⟨⟨rfl, fun _ => rfl⟩, fun w => ⟨rfl, fun _ => rfl⟩⟩
      refine follows_pairCollaborator (fun hnone e => ⟨?_, fun v => hwrites v _⟩)
        (fun found hfound stop hstop => ?_) (fun v => ⟨rfl, fun _ => rfl⟩)
        fun v outcome => ⟨⟨rfl, fun _ => rfl⟩, fun w => hwrites w _⟩
      · exact sizeSegment_of_admits (.waits (.pairCollaborator s.invites)) hadmits rfl
          (sizeWith_of_none hnone)
      · have hsame : found.id = piece.id := App.id_of_findPiece hfound
        rw [← hsame] at hfound
        have hpaired : ∀ stop, SizeSegment (.acceptLink now token userId name email)
            (some (.isProUser piece t.isPro)) u stop
              (adding (backfilling found invite.ownerName u) now (backfilled found invite.ownerName)
                userId name email) := fun stop =>
          sizeSegment_of_admits stop hadmits (by simp) (hsame ▸ size_pairing hfound invite.ownerName)
        obtain rfl | rfl := hstop
        · exact hpaired (.waits .emit)
        · exact hpaired (.waits .addCollaborator)

theorem size_acceptMessage {invite : InviteMessage} :
    (InviteCall.acceptMessage now invite userId name email).program.Follows
      (SizeSegment (.acceptMessage now invite userId name email)) none s s := by
  rw [InviteCall.program, follows_bind, DefaultCollaboratorInviteService.acceptInvite, follows_bind,
    follows_awaiting, follows_getPiece]
  refine ⟨⟨rfl, fun _ => rfl⟩, fun t => ?_⟩
  cases hread : s.device.findPiece invite.pieceId with
  | none =>
    rw [getPiece_eq_error hread]
    exact ⟨rfl, fun _ => rfl⟩
  | some piece =>
    have hid := App.id_of_findPiece hread
    rw [getPiece_eq hread]
    simp only [Stop.Then]
    rw [follows_bind, follows_isProUser]
    refine ⟨⟨rfl, fun _ => rfl⟩, fun u => ?_⟩
    simp only [Stop.Then]
    split_ifs with hcap
    · exact sizeSegment_of_refuses
        (.ends (.error (.atCapInviteException CollaboratorLimits.message))) (if_pos hcap)
    have hadmits : (InviteCall.acceptMessage now invite userId name email).admits? piece t.isPro =
        some userId := if_neg hcap
    rw [← hid, follows_awaiting]
    refine follows_addCollaborator (fun hnone e => ?_) (fun found hfound stop hstop => ?_)
      fun v => ⟨⟨rfl, fun _ => rfl⟩, fun w => ⟨rfl, fun _ => rfl⟩⟩
    · exact ⟨sizeSegment_of_admits (.waits .addCollaborator) hadmits rfl (sizeWith_of_none hnone),
        fun v => ⟨rfl, fun _ => rfl⟩⟩
    · have hsame : found.id = piece.id := App.id_of_findPiece hfound
      rw [← hsame] at hfound
      have hadded : ∀ stop, SizeSegment (.acceptMessage now invite userId name email)
          (some (.isProUser piece t.isPro)) _ stop (adding _ now found userId name email) :=
        fun stop => sizeSegment_of_admits stop hadmits (by simp) (hsame ▸ size_adding hfound)
      obtain rfl | rfl := hstop
      · exact ⟨hadded (.waits .addCollaborator), fun v => ⟨rfl, fun _ => rfl⟩⟩
      · exact hadded (.waits .emit)

/-- Every call changes the sizes of the pieces as its segments say. -/
theorem follows_size (call : InviteCall) (s : App) :
    call.program.Follows (SizeSegment call) none s s := by
  cases call with
  | createInvite => exact size_createInvite _ _
  | resolveInvite => exact size_resolveInvite
  | acceptLink => exact size_acceptLink
  | acceptMessage => exact size_acceptMessage

end

namespace Pairing

/-- The piece has no more collaborators than the tier allows. -/
def WithinCap (pieceId : String) (s : Pairing) : Prop :=
  ∀ size ∈ s.state.size pieceId, size ≤ CollaboratorLimits.capFor s.state.isPro

/-- A call that is past its check finds the piece below its cap, or its user on it. -/
def FindsRoom (pieceId : String) (app : App) (call : InviteCall) : AppAwait → Prop
  | .isProUser piece isPro => piece.id = pieceId → ∀ userId ∈ call.admits? piece isPro,
      ∀ found ∈ app.device.findPiece pieceId,
        found.isCollaborator userId ∨ ¬CollaboratorLimits.isAtCap found app.isPro
  | _ => True

/-- Every call that its check lets go on finds room on the piece. -/
def Checked (pieceId : String) (s : Pairing) : PairingEvent → Prop
  | .resume i _ => ∀ task ∈ s.running[i]?, ∀ point ∈ task.rest.point?,
      FindsRoom pieceId s.state task.call point
  | _ => True

instance (pieceId : String) (s : Pairing) : Decidable (WithinCap pieceId s) := by
  unfold WithinCap
  infer_instance

instance (pieceId : String) (app : App) (call : InviteCall) (point : AppAwait) :
    Decidable (FindsRoom pieceId app call point) := by
  cases point <;> unfold FindsRoom <;> infer_instance

instance (pieceId : String) (s : Pairing) (e : PairingEvent) : Decidable (Checked pieceId s e) := by
  cases e <;> unfold Checked <;> infer_instance

section

variable {pieceId : String} {s t : Pairing} {event : PairingEvent}

theorem withinCap_congr (hsize : t.state.size pieceId = s.state.size pieceId)
    (hisPro : t.state.isPro = s.state.isPro) : WithinCap pieceId t ↔ WithinCap pieceId s := by
  rw [WithinCap, WithinCap, hsize, hisPro]

/-- One more collaborator fits where there is room. -/
theorem withinCap_iff_of_sizeWith {userId : String} (hs : WithinCap pieceId s)
    (hsize : t.state.size pieceId = s.state.sizeWith pieceId userId)
    (hisPro : t.state.isPro = s.state.isPro) :
    WithinCap pieceId t ↔ ∀ found ∈ s.state.device.findPiece pieceId,
      found.isCollaborator userId ∨ ¬CollaboratorLimits.isAtCap found s.state.isPro := by
  rw [WithinCap] at hs ⊢
  rw [hsize, hisPro, App.sizeWith]
  rw [App.size] at hs
  cases hfound : s.state.device.findPiece pieceId with
  | none => simp
  | some found =>
    rw [hfound] at hs
    have hwithin := hs _ rfl
    simp only [Option.map_some, Option.mem_def, Option.some.injEq, forall_eq',
      CollaboratorLimits.isAtCap, decide_eq_true_eq]
    split_ifs with hin
    · exact iff_of_true (by omega) (.inl hin)
    · simp only [hin, Bool.false_eq_true, false_or]
      omega

theorem withinCap_step (hobeys : s.Obeys SizeSegment) (hs : WithinCap pieceId s)
    (hstep : s.step event = some t) : WithinCap pieceId t ↔ Checked pieceId s event := by
  obtain ⟨-, hsegment⟩ := Lib.Isolate.obeys_step follows_size hobeys hstep
  cases event with
  | call c =>
    obtain ⟨left, stop, -, ⟨hisPro, hsize⟩, rfl⟩ := hsegment
    refine iff_of_true ((withinCap_congr (s := s) ?_ ?_).mpr hs) trivial
    · rw [Lib.Isolate.state_settle]
      exact hsize pieceId
    · rw [Lib.Isolate.state_settle]
      exact hisPro
  | resume i input =>
    obtain ⟨c, point, k, left, stop, hrunning, -, ⟨hisPro, hsize⟩, rfl⟩ := hsegment
    have hchecked : Checked pieceId s (.resume i input) ↔ FindsRoom pieceId s.state c point := by
      simp [Checked, hrunning]
    rw [hchecked]
    have hkeeps : left.2.size pieceId = s.state.size pieceId →
        WithinCap pieceId (Lib.Isolate.settle { s with running := s.running.eraseIdx i } c left) :=
      fun hsame => (withinCap_congr (s := s) (by rw [Lib.Isolate.state_settle, hsame])
        (by rw [Lib.Isolate.state_settle, hisPro])).mpr hs
    cases point with
    | isProUser piece isPro =>
      dsimp only at hsize
      cases hadmits : c.admits? piece isPro with
      | none =>
        rw [hadmits] at hsize
        exact iff_of_true (hkeeps (hsize pieceId)) fun _ userId huser => by simp [hadmits] at huser
      | some userId =>
        rw [hadmits] at hsize
        have hid := hsize pieceId
        by_cases hsame : pieceId = piece.id
        · rw [if_pos hsame] at hid
          rw [withinCap_iff_of_sizeWith hs (by rw [Lib.Isolate.state_settle, hid])
            (by rw [Lib.Isolate.state_settle, hisPro])]
          simp [FindsRoom, hadmits, hsame]
        · rw [if_neg hsame] at hid
          exact iff_of_true (hkeeps hid) fun hpiece => absurd hpiece.symm hsame
    | _ => exact iff_of_true (hkeeps (hsize pieceId)) trivial
  | kill =>
    obtain rfl := hsegment
    exact iff_of_true hs trivial

/-- A piece that starts within its cap stays within it exactly when every call that its check lets
go on finds the piece below the cap or its user on it. -/
theorem withinCap_iff {start : App} {events : List PairingEvent}
    (hstart : WithinCap pieceId (Lib.Isolate.start start)) :
    Always Pairing.step (WithinCap pieceId) (Lib.Isolate.start start) events ↔
      EachStep Pairing.step (Checked pieceId) (Lib.Isolate.start start) events := by
  refine always_iff_eachStep (I := fun s => s.Obeys SizeSegment)
    (fun s e t hs _ hstep => (Lib.Isolate.obeys_step follows_size hs hstep).1)
    (fun s e t hs hwithin hstep => withinCap_step hs hwithin hstep) (fun s e hstep => ?_)
    (by simp [Lib.Isolate.Obeys, Lib.Isolate.start]) hstart
  cases e with
  | resume i input =>
    intro task htask point hpoint
    have hnone : s.resumed? i input = none := Option.map_eq_none_iff.mp hstep
    obtain ⟨call, rest⟩ := task
    cases rest with
    | await point' k => simp [Lib.Isolate.resumed?, Option.mem_def.mp htask] at hnone
    | _ => cases hpoint
  | _ => trivial

end

/-! ## Two users for one free place -/

/-- Ann's piece on the free tier, with an invite that has not been used. -/
def annsFreePiece : App :=
  let piece : Piece := ⟨"p", "Etude", "c0ffee", "p.pdf", "ann", some "Ann", [], noon, noon⟩
  ⟨{ Device.fresh with pieces := [piece] }, [], [⟨"token", "p", "ann", none, 0, false⟩], false⟩

/-- Bob accepts the link. -/
def bobAccepts : InviteCall := .acceptLink noon "token" "bob" none none

/-- Cid accepts a message. -/
def cidAccepts : InviteCall := .acceptMessage noon ⟨"m", "p", "ann", none⟩ "cid" none none

/-- Cid accepts once bob has been added. -/
def oneByOne : List PairingEvent :=
  .call bobAccepts :: List.replicate 6 (.resume 0 ()) ++
    .call cidAccepts :: List.replicate 2 (.resume 0 ())

/-- Both have read the piece before either is added. -/
def bothChecked : List PairingEvent :=
  [.call bobAccepts, .resume 0 (), .call cidAccepts, .resume 1 (), .resume 0 (), .resume 0 ()]

theorem withinCap_iff_annsFreePiece :
    (run Pairing.step (Lib.Isolate.start annsFreePiece) oneByOne).isSome = true ∧
      Always Pairing.step (WithinCap "p") (Lib.Isolate.start annsFreePiece) oneByOne :=
  ⟨by decide +kernel, (withinCap_iff (by decide +kernel)).mpr (by decide +kernel)⟩

/-- The cap is checked on the piece as it was before the other user was added. -/
theorem not_withinCap : ¬∀ (pieceId : String) (start : App) (events : List PairingEvent),
    WithinCap pieceId (Lib.Isolate.start start) →
      Always Pairing.step (WithinCap pieceId) (Lib.Isolate.start start) events := by
  intro hall
  have hwithin := hall "p" annsFreePiece bothChecked (by decide +kernel)
  have hrun : (run Pairing.step (Lib.Isolate.start annsFreePiece) bothChecked).map
      (fun s => (s.state.size "p", s.state.isPro)) = some (some 2, false) := by decide +kernel
  obtain ⟨s, hs, hends⟩ := Option.map_eq_some_iff.mp hrun
  obtain ⟨hsize, hisPro⟩ := Prod.mk.inj hends
  have hle := hwithin.last hs 2 (Option.mem_def.mpr hsize)
  rw [hisPro] at hle
  exact absurd hle (by decide)

end Pairing

end Duet
