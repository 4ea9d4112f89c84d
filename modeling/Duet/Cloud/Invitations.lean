import Duet.Cloud.Membership

/-!
# Invitations

A piece is created by its owner alone; everybody else has to be invited. The callables trust the
message in the caller's inbox: the rules let its recipient rewrite it, and the piece it names can
have been deleted and created anew by somebody else.

## Main results

* `Server.step_authorizing` — one step keeps every participant invited, as long as clients keep
  the invites as they are.
* `Server.participants_invited` — the run lemma from it.
-/

namespace Duet

open Lib Program

variable {emailKey : String → String}

/-- A `sendInvite` call for the piece by `owner` that has been sent to `uid`. -/
def IsInvite (pieceId owner uid : String) : Request × Reply → Prop
  | (.sendInvite (some token) data _ _, .sent _ recipientUid _ _) =>
    nonEmptyString? (data.read "pieceId") = some pieceId ∧ token.uid = owner ∧ recipientUid = uid
  | _ => False

instance (pieceId owner uid : String) (entry : Request × Reply) :
    Decidable (IsInvite pieceId owner uid entry) := by
  unfold IsInvite
  split <;> infer_instance

/-- A running `sendInvite` call for the piece by `owner` that has read the piece already. -/
def RunningCall.Inviting (pieceId owner : String) (call : RunningCall) : Prop :=
  match call.request with
  | .sendInvite (some token) data _ _ =>
    nonEmptyString? (data.read "pieceId") = some pieceId ∧ token.uid = owner ∧
      ∃ op, call.program.next? = some op ∧ op ≠ .get (.pieces pieceId)
  | _ => False

namespace Server

/-- `uid` has been sent an invite to the piece by `owner`. -/
def Invited (s : Server) (pieceId owner uid : String) : Prop :=
  ∃ entry ∈ s.replies, IsInvite pieceId owner uid entry

/-- The piece, if there is one, is owned by `owner`. -/
def OwnedBy (s : Server) (pieceId owner : String) : Prop :=
  ∀ piece, s.cloud.doc (.pieces pieceId) = some piece → piece.read "ownerId" = .string owner

/-- Whoever takes part in a piece is its owner or has been invited by its owner. -/
def ParticipantsInvited (s : Server) : Prop :=
  ∀ pieceId piece, s.cloud.doc (.pieces pieceId) = some piece → ∀ uid, TakesPart piece uid →
    piece.read "ownerId" = .string uid ∨
      ∃ owner, piece.read "ownerId" = .string owner ∧ s.Invited pieceId owner uid

/-- Clients keep the invites as they are: an inbox message still names a piece that its recipient
has been invited to, and no piece is created under an id that somebody else has sent, or is about
to send, invites for. -/
def KeepsInvites (s : Server) : ServerEvent → Prop
  | .write uid write =>
    match write.path with
    | .userInbox recipientUid _ => ∀ fields pieceId,
        write.result (s.cloud.doc write.path) = .ok (some fields) →
        invitedTo? fields = some pieceId →
        (∃ old, s.cloud.doc write.path = some old ∧ invitedTo? old = some pieceId) ∨
          ∃ owner, s.Invited pieceId owner recipientUid
    | .pieces pieceId => s.cloud.doc write.path = none → ∀ owner,
        ((∃ invitee, s.Invited pieceId owner invitee) ∨
          ∃ call ∈ s.running, call.Inviting pieceId owner) → owner = uid
    | _ => True
  | _ => True

/-! ## Where a call stands -/

/-- How far a `sendInvite` call has got; once it has read the piece, its caller owns it. -/
inductive InviteStage (emailKey : String → String) (owned : String → String → Prop)
    (auth : Option Token) (data : Fields) (messageId : String) (now : Int) :
    AdminProgram Reply → Prop where
  | asked : InviteStage emailKey owned auth data messageId now
      (sendInvite emailKey auth data messageId now)
  | checked {token : Token} {pieceId key : String} (hauth : auth = some token)
      (hpiece : nonEmptyString? (data.read "pieceId") = some pieceId)
      (howned : owned pieceId token.uid) : InviteStage emailKey owned auth data messageId now
      (.call (.get (.usersByEmail key)) fun entry => deliverInvite token pieceId messageId now entry)
  | resolved {token : Token} {pieceId recipientUid : String} {email name : Value}
      (hauth : auth = some token) (hpiece : nonEmptyString? (data.read "pieceId") = some pieceId)
      (howned : owned pieceId token.uid) : InviteStage emailKey owned auth data messageId now
      (.call (.commit [.set (.userInbox recipientUid messageId)
        (inviteMessage recipientUid token pieceId now)]) fun _ =>
          .done (.sent messageId recipientUid email name))
  | ended {program : AdminProgram Reply} (h : program.next? = none) :
      InviteStage emailKey owned auth data messageId now program

/-- How far an `acceptInvite` call has got; it joins a piece that the caller is invited to. -/
inductive AcceptStage (invited : String → String → Prop) (auth : Option Token) (data : Fields) :
    AdminProgram Reply → Prop where
  | asked : AcceptStage invited auth data (acceptInvite auth data)
  | joining {token : Token} {pieceId messageId : String} {name email : Value} {message : Fields}
      (hinvited : invited pieceId token.uid) : AcceptStage invited auth data
      (.call (.transaction (joinPiece token.uid name email pieceId)) fun _ =>
        consumeInvite token.uid messageId message)
  | consuming {uid messageId : String} {message : Fields} : AcceptStage invited auth data
      (consumeInvite uid messageId message)
  | ended {program : AdminProgram Reply} (h : program.next? = none) :
      AcceptStage invited auth data program

/-- Where a running call stands. -/
def CallStands (emailKey : String → String) (s : Server) (call : RunningCall) : Prop :=
  match call.request with
  | .sendInvite auth data messageId now =>
    InviteStage emailKey s.OwnedBy auth data messageId now call.program
  | .acceptInvite auth data =>
    AcceptStage (fun pieceId uid => ∃ owner, s.Invited pieceId owner uid) auth data call.program
  | .leavePiece _ _ => call.program.Issues (fun _ _ => True) Drops
  | .deleteAccount _ _ _ => call.program.Issues (fun _ _ => True) Drops

/-- What every state of a run keeps: participants are invited, inboxes hold invites that have been
sent, and pieces belong to those who have sent invites to them. -/
structure Authorizing (emailKey : String → String) (s : Server) : Prop where
  participants : s.ParticipantsInvited
  inboxes : ∀ recipientUid messageId message pieceId,
    s.cloud.doc (.userInbox recipientUid messageId) = some message →
    invitedTo? message = some pieceId → ∃ owner, s.Invited pieceId owner recipientUid
  owners : ∀ pieceId owner uid, s.Invited pieceId owner uid → s.OwnedBy pieceId owner
  calls : ∀ call ∈ s.running, CallStands emailKey s call

theorem authorizing_initial : Authorizing emailKey initial := by
  refine ⟨?_, ?_, ?_, ?_⟩
  · intro pieceId piece h
    cases h
  · intro recipientUid messageId message pieceId h
    cases h
  · rintro pieceId owner uid ⟨entry, hentry, -⟩
    cases hentry
  · intro call hcall
    cases hcall

variable {s t : Server} {pieceId owner uid : String} {call : RunningCall}

/-! ## What carries over to the next state -/

theorem Invited.mono (h : s.Invited pieceId owner uid) (hreplies : s.replies ⊆ t.replies) :
    t.Invited pieceId owner uid := by
  obtain ⟨entry, hentry, hinvite⟩ := h
  exact ⟨entry, hreplies hentry, hinvite⟩

theorem OwnedBy.admits {invited : String → String → Prop} (h : s.OwnedBy pieceId owner)
    (hcloud : s.cloud.Admits invited t.cloud) : t.OwnedBy pieceId owner := by
  intro piece' hpiece'
  obtain ⟨piece, hpiece, howner, -⟩ := hcloud.pieces _ _ hpiece'
  rw [howner]
  exact h piece hpiece

theorem AcceptStage.mono {invited invited' : String → String → Prop} {auth : Option Token}
    {data : Fields} {program : AdminProgram Reply} (h : AcceptStage invited auth data program)
    (himp : ∀ pieceId uid, invited pieceId uid → invited' pieceId uid) :
    AcceptStage invited' auth data program := by
  cases h with
  | asked => exact .asked
  | joining hinvited => exact .joining (himp _ _ hinvited)
  | consuming => exact .consuming
  | ended hend => exact .ended hend

/-- A call stands where it stood as long as the piece it invites to does not change hands. -/
theorem CallStands.mono (h : CallStands emailKey s call) (hreplies : s.replies ⊆ t.replies)
    (howned : ∀ pieceId owner, call.Inviting pieceId owner → s.OwnedBy pieceId owner →
      t.OwnedBy pieceId owner) : CallStands emailKey t call := by
  obtain ⟨request, program⟩ := call
  cases request with
  | sendInvite auth data messageId now =>
    change InviteStage _ _ _ _ _ _ program at h
    cases h with
    | asked => exact .asked
    | checked hauth hpiece hown =>
      subst hauth
      exact .checked rfl hpiece (howned _ _ ⟨hpiece, rfl, _, rfl, by simp⟩ hown)
    | resolved hauth hpiece hown =>
      subst hauth
      exact .resolved rfl hpiece (howned _ _ ⟨hpiece, rfl, _, rfl, by simp⟩ hown)
    | ended hend => exact .ended hend
  | acceptInvite auth data =>
    exact AcceptStage.mono h fun _ _ ⟨owner, hinvited⟩ => ⟨owner, hinvited.mono hreplies⟩
  | leavePiece auth data => exact h
  | deleteAccount auth recent schedule => exact h

theorem invited_advance {i : Nat} {next : AdminProgram Reply} {cloud : Cloud}
    (hnext : call.program.advance Operation.perform s.cloud = (next, cloud))
    (h : (s.advance i call).Invited pieceId owner uid) : s.Invited pieceId owner uid ∨
      ∃ reply, next = .done reply ∧ IsInvite pieceId owner uid (call.request, reply) := by
  obtain ⟨entry, hentry, hinvite⟩ := h
  simp only [Server.advance, hnext] at hentry
  rcases List.mem_append.mp hentry with hentry | hentry
  · exact .inl ⟨entry, hentry, hinvite⟩
  cases next with
  | done reply =>
    obtain rfl := List.mem_singleton.mp hentry
    exact .inr ⟨reply, rfl, hinvite⟩
  | fail failure => cases hentry
  | call op k => cases hentry

/-- What the next operation of a call makes of the documents decides whether everybody who takes
part is still invited. -/
theorem Authorizing.advance {i : Nat} {next : AdminProgram Reply} {cloud : Cloud}
    (h : Authorizing emailKey s)
    (hnext : call.program.advance Operation.perform s.cloud = (next, cloud))
    (hcloud : s.cloud.Admits
      (fun pieceId uid => ∃ owner, (s.advance i call).Invited pieceId owner uid) cloud)
    (howners : ∀ pieceId owner uid reply, next = .done reply →
      IsInvite pieceId owner uid (call.request, reply) → s.OwnedBy pieceId owner)
    (hcall : CallStands emailKey (s.advance i call) ⟨call.request, next⟩) :
    Authorizing emailKey (s.advance i call) := by
  have hreplies : s.replies ⊆ (s.advance i call).replies := List.subset_append_left _ _
  have hinvited : ∀ pieceId owner uid, (s.advance i call).Invited pieceId owner uid →
      s.OwnedBy pieceId owner := by
    intro pieceId owner uid hinvited
    rcases invited_advance hnext hinvited with hinvited | ⟨reply, hreply, hinvite⟩
    · exact h.owners pieceId owner uid hinvited
    · exact howners pieceId owner uid reply hreply hinvite
  have ht : (s.advance i call).cloud = cloud := by simp only [Server.advance, hnext]
  rw [← ht] at hcloud
  constructor
  · intro pieceId piece' hpiece' uid hpart
    obtain ⟨piece, hpiece, howner, hjoined⟩ := hcloud.pieces _ _ hpiece'
    rw [howner]
    rcases hjoined uid hpart with hpart | ⟨owner, hjoin⟩
    · rcases h.participants pieceId piece hpiece uid hpart with hself | ⟨owner, hown, hjoin⟩
      · exact .inl hself
      · exact .inr ⟨owner, hown, hjoin.mono hreplies⟩
    · exact .inr ⟨owner, hinvited _ _ _ hjoin piece hpiece, hjoin⟩
  · intro recipientUid messageId message' pieceId hmessage' hq
    rcases hcloud.inboxes _ _ _ _ hmessage' hq with hjoin | ⟨message, hmessage, hq⟩
    · exact hjoin
    · obtain ⟨owner, hjoin⟩ := h.inboxes _ _ _ _ hmessage hq
      exact ⟨owner, hjoin.mono hreplies⟩
  · intro pieceId owner uid hjoin
    exact (hinvited _ _ _ hjoin).admits hcloud
  · intro other hother
    rcases List.mem_or_eq_of_mem_set hother with hother | rfl
    · exact (h.calls other hother).mono hreplies fun _ _ _ hown => hown.admits hcloud
    · simpa only [hnext] using hcall

/-- `leavePiece` and `deleteAccount` only drop people. -/
theorem authorizing_drops {i : Nat} (h : Authorizing emailKey s) (hcall : call ∈ s.running)
    (hrequest : (∃ auth data, call.request = .leavePiece auth data) ∨
      ∃ auth recent schedule, call.request = .deleteAccount auth recent schedule) :
    Authorizing emailKey (s.advance i call) := by
  have hissues : call.program.Issues (fun _ _ => True) Drops := by
    have := h.calls call hcall
    rcases hrequest with ⟨auth, data, hrequest⟩ | ⟨auth, recent, schedule, hrequest⟩ <;>
      simpa [CallStands, hrequest] using this
  apply h.advance (Prod.eta _).symm
  · rcases hprogram : call.program with reply | failure | ⟨op, k⟩
    · exact .refl _
    · exact .refl _
    · rw [advance_call_snd]
      exact admits_of_drops (hissues.next (congrArg next? hprogram)) s.cloud
  · intro pieceId owner uid reply _ hinvite
    rcases hrequest with ⟨auth, data, hrequest⟩ | ⟨auth, recent, schedule, hrequest⟩ <;>
      simp [IsInvite, hrequest] at hinvite
  · rcases hrequest with ⟨auth, data, hrequest⟩ | ⟨auth, recent, schedule, hrequest⟩ <;>
      simpa [CallStands, hrequest] using
        hissues.advance Operation.perform s.cloud fun _ _ _ _ => trivial

/-! ## `acceptInvite` -/

theorem consumeInvite_eq (uid messageId : String) (message : Fields) :
    consumeInvite uid messageId message =
      .call (.commit [.merge (.userInbox uid messageId) [("read", .bool true)]]) fun _ =>
        .done (.accepted (fieldOf (message.read "data") "pieceId")
          (fieldOf (message.read "data") "ownerId")) := rfl

theorem AcceptStage.admits {invited : String → String → Prop} {auth : Option Token} {data : Fields}
    {program : AdminProgram Reply} (h : AcceptStage invited auth data program) (c : Cloud) :
    c.Admits invited (program.advance Operation.perform c).2 := by
  cases h with
  | asked =>
    simp only [acceptInvite]
    rcases auth with _ | token
    · exact .refl c
    rcases nonEmptyString? (data.read "messageId") with _ | messageId
    · exact .refl c
    · exact .refl c
  | joining hinvited =>
    rw [advance_call_snd]
    exact c.admits_joinPiece _ _ hinvited
  | @consuming uid messageId message =>
    rw [consumeInvite_eq, advance_call_snd]
    apply Cloud.admits_write
    intro fields hfields
    obtain rfl := Except.ok.inj hfields
    apply Cloud.admits_store_message
    intro pieceId hq
    right
    rcases hdoc : c.doc (.userInbox uid messageId) with _ | old
    · simp [Write.path, hdoc, invitedTo?, Fields.read_set, fieldOf, nonEmptyString?] at hq
    · refine ⟨old, rfl, ?_⟩
      simpa [Write.path, hdoc, invitedTo?, Fields.read_set] using hq
  | ended hend =>
    rw [advance_of_next_none _ hend]
    exact .refl c

theorem AcceptStage.advance {invited : String → String → Prop} {auth : Option Token}
    {data : Fields} {program : AdminProgram Reply} (h : AcceptStage invited auth data program)
    {c : Cloud} (hinbox : ∀ recipientUid messageId message pieceId,
      c.doc (.userInbox recipientUid messageId) = some message →
      invitedTo? message = some pieceId → invited pieceId recipientUid) :
    AcceptStage invited auth data (program.advance Operation.perform c).1 := by
  cases h with
  | asked =>
    simp only [acceptInvite]
    rcases auth with _ | token
    · exact .ended rfl
    rcases nonEmptyString? (data.read "messageId") with _ | messageId
    · exact .ended rfl
    change AcceptStage _ _ _ (useInvite token data messageId (c.doc (.userInbox token.uid messageId)))
    rcases hdoc : c.doc (.userInbox token.uid messageId) with _ | message
    · exact .ended rfl
    simp only [useInvite]
    split_ifs
    · exact .ended rfl
    · exact .ended rfl
    split
    · exact .consuming
    · rename_i pieceId hq
      exact .joining (hinbox _ _ _ _ hdoc hq)
  | joining hinvited =>
    rcases advance_call_fst Operation.perform _ _ c with ⟨_, -, hnext⟩ | ⟨failure, hnext⟩
    · rw [hnext]
      exact .consuming
    · rw [hnext]
      exact .ended rfl
  | consuming =>
    rcases advance_call_fst Operation.perform _ _ c with ⟨_, -, hnext⟩ | ⟨failure, hnext⟩
    · exact .ended (congrArg next? hnext)
    · exact .ended (congrArg next? hnext)
  | ended hend =>
    rw [advance_of_next_none _ hend]
    exact .ended hend

theorem authorizing_acceptInvite {i : Nat} {auth : Option Token} {data : Fields}
    {program : AdminProgram Reply} (h : Authorizing emailKey s)
    (hcall : ⟨.acceptInvite auth data, program⟩ ∈ s.running) :
    Authorizing emailKey (s.advance i ⟨.acceptInvite auth data, program⟩) := by
  have hstage : AcceptStage _ auth data program := h.calls _ hcall
  have hmono : ∀ pieceId uid, (∃ owner, s.Invited pieceId owner uid) → ∃ owner,
      (s.advance i ⟨.acceptInvite auth data, program⟩).Invited pieceId owner uid := by
    intro pieceId uid hinvited
    obtain ⟨owner, hinvited⟩ := hinvited
    exact ⟨owner, hinvited.mono (List.subset_append_left _ _)⟩
  apply h.advance rfl
  · exact (hstage.mono hmono).admits s.cloud
  · intro pieceId owner uid reply _ hinvite
    cases hinvite
  · exact (hstage.advance h.inboxes).mono hmono


/-! ## `sendInvite` -/

theorem ne_empty_of_nonEmptyString? {value : Value} {id : String}
    (h : nonEmptyString? value = some id) : id ≠ "" := by
  cases value <;> simp only [nonEmptyString?, reduceCtorEq] at h
  split_ifs at h with hempty
  obtain rfl := Option.some.inj h
  exact hempty

theorem invitedTo?_inviteMessage {recipientUid pieceId : String} {token : Token} {now : Int}
    (h : pieceId ≠ "") : invitedTo? (inviteMessage recipientUid token pieceId now) = some pieceId := by
  simp [invitedTo?, inviteMessage, Assoc.ofList, Fields.read_set, mapOf, fieldOf, nonEmptyString?, h]

/-- `sendInvite` fails, or goes on once it has read a piece that the caller owns. -/
theorem sendInvite_advance (emailKey : String → String) (auth : Option Token) (data : Fields) (messageId : String) (now : Int)
    (c : Cloud) :
    (∃ failure, (sendInvite emailKey auth data messageId now).advance Operation.perform c =
      (.fail failure, c)) ∨
    ∃ token pieceId piece key, auth = some token ∧
      nonEmptyString? (data.read "pieceId") = some pieceId ∧
      c.doc (.pieces pieceId) = some piece ∧ piece.read "ownerId" = .string token.uid ∧
      (sendInvite emailKey auth data messageId now).advance Operation.perform c =
        (.call (.get (.usersByEmail key)) fun entry =>
          deliverInvite token pieceId messageId now entry, c) := by
  simp only [sendInvite]
  rcases auth with _ | token
  · exact .inl ⟨_, rfl⟩
  rcases hpiece : nonEmptyString? (data.read "pieceId") with _ | pieceId
  · exact .inl ⟨_, rfl⟩
  rcases nonEmptyString? (data.read "inviteeEmail") with _ | inviteeEmail
  · exact .inl ⟨_, rfl⟩
  change (∃ failure, (checkOwner emailKey token pieceId inviteeEmail messageId now
    (c.doc (.pieces pieceId)), c) = _) ∨ ∃ token' pieceId' piece key, _ ∧ _ ∧ _ ∧ _ ∧
      (checkOwner emailKey token pieceId inviteeEmail messageId now
        (c.doc (.pieces pieceId)), c) = _
  rcases hdoc : c.doc (.pieces pieceId) with _ | piece
  · exact .inl ⟨_, rfl⟩
  simp only [checkOwner]
  split_ifs with howner
  · exact .inl ⟨_, rfl⟩
  · exact .inr ⟨token, pieceId, piece, emailKey inviteeEmail, rfl, rfl, hdoc, not_not.mp howner, rfl⟩

/-- `sendInvite` ends without a word, or delivers its message next. -/
theorem deliverInvite_cases (token : Token) (pieceId messageId : String) (now : Int)
    (entry : Option Fields) :
    deliverInvite token pieceId messageId now entry = .done .noAccount ∨
    (∃ failure, deliverInvite token pieceId messageId now entry = .fail failure) ∨
    ∃ recipientUid email name, deliverInvite token pieceId messageId now entry =
      .call (.commit [.set (.userInbox recipientUid messageId)
        (inviteMessage recipientUid token pieceId now)]) fun _ =>
          .done (.sent messageId recipientUid email name) := by
  rcases entry with _ | entry
  · exact .inl rfl
  simp only [deliverInvite]
  split_ifs
  · exact .inl rfl
  rcases (entry.read "uid").asString with _ | recipientUid
  · exact .inr (.inl ⟨_, rfl⟩)
  · exact .inr (.inr ⟨recipientUid, _, _, rfl⟩)

theorem authorizing_sendInvite {i : Nat} {auth : Option Token} {data : Fields} {messageId : String}
    {now : Int} {program : AdminProgram Reply} (h : Authorizing emailKey s)
    (hcall : ⟨.sendInvite auth data messageId now, program⟩ ∈ s.running)
    (hrun : program.next? ≠ none) :
    Authorizing emailKey (s.advance i ⟨.sendInvite auth data messageId now, program⟩) := by
  have hstage : InviteStage _ _ auth data messageId now program := h.calls _ hcall
  cases hstage with
  | asked =>
    rcases sendInvite_advance emailKey auth data messageId now s.cloud with ⟨failure, hnext⟩ | hnext
    · exact h.advance hnext (.refl _) (fun _ _ _ _ hreply => by cases hreply) (.ended rfl)
    · obtain ⟨token, pieceId, piece, key, hauth, hpiece, hdoc, howner, hnext⟩ := hnext
      refine h.advance hnext (.refl _) (fun _ _ _ _ hreply => by cases hreply)
        (.checked hauth hpiece ?_)
      intro piece' hpiece'
      simp only [Server.advance, hnext, hdoc, Option.some.injEq] at hpiece'
      rw [← hpiece', howner]
  | @checked token pieceId key hauth hpiece howned =>
    have hnext : Program.advance Operation.perform (.call (.get (.usersByEmail key)) fun entry =>
        deliverInvite token pieceId messageId now entry) s.cloud =
        (deliverInvite token pieceId messageId now (s.cloud.doc (.usersByEmail key)), s.cloud) := rfl
    rcases deliverInvite_cases token pieceId messageId now (s.cloud.doc (.usersByEmail key)) with
      hdeliver | ⟨failure, hdeliver⟩ | ⟨recipientUid, email, name, hdeliver⟩
    · rw [hdeliver] at hnext
      refine h.advance hnext (.refl _) ?_ (.ended rfl)
      intro _ _ _ reply hreply hinvite
      obtain rfl := Program.done.inj hreply
      simp [IsInvite] at hinvite
    · rw [hdeliver] at hnext
      exact h.advance hnext (.refl _) (fun _ _ _ _ hreply => by cases hreply) (.ended rfl)
    · rw [hdeliver] at hnext
      exact h.advance hnext (.refl _) (fun _ _ _ _ hreply => by cases hreply)
        (.resolved hauth hpiece howned)
  | @resolved token pieceId recipientUid email name hauth hpiece howned =>
    subst hauth
    have hid : pieceId ≠ "" := ne_empty_of_nonEmptyString? hpiece
    have hnext : Program.advance Operation.perform (.call (.commit
        [.set (.userInbox recipientUid messageId) (inviteMessage recipientUid token pieceId now)])
          fun _ => .done (Reply.sent messageId recipientUid email name)) s.cloud =
        (.done (Reply.sent messageId recipientUid email name), s.cloud.store
          (.userInbox recipientUid messageId)
          (some (inviteMessage recipientUid token pieceId now))) := rfl
    refine h.advance hnext (Cloud.admits_store_message ?_) ?_ (.ended rfl)
    · intro pieceId' hq
      obtain rfl : pieceId = pieceId' := by
        simpa [invitedTo?_inviteMessage hid] using hq
      refine .inl ⟨token.uid, (.sendInvite (some token) data messageId now,
        .sent messageId recipientUid email name), ?_, hpiece, rfl, rfl⟩
      simp [Server.advance, hnext, replyOf]
    · intro pieceId' owner uid reply hreply hinvite
      obtain rfl := Program.done.inj hreply
      obtain ⟨hpiece', rfl, rfl⟩ := hinvite
      obtain rfl := Option.some.inj (hpiece.symm.trans hpiece')
      exact howned
  | ended hend =>
    exact absurd hend hrun


/-! ## Steps and runs -/

/-- Marking a message read keeps the invites. -/
theorem keepsInvites_markRead {messageId : String} {value : Value} :
    s.KeepsInvites (.write uid (.update (.userInbox uid messageId) [("read", .set value)])) := by
  intro fields pieceId hfields hq
  dsimp only [Write.path] at hfields ⊢
  rcases hdoc : s.cloud.doc (.userInbox uid messageId) with _ | old
  · rw [hdoc] at hfields
    cases hfields
  · rw [hdoc] at hfields
    obtain rfl := Option.some.inj (Except.ok.inj hfields)
    refine .inl ⟨old, rfl, ?_⟩
    simpa [invitedTo?, Write.changed, Fields.read_set] using hq

/-- Documents that a client may leave behind: each piece is as it was, or new and the client's own,
and each message names a piece its recipient has been invited to. -/
theorem Authorizing.with_cloud {cloud : Cloud} (h : Authorizing emailKey s)
    (hpieces : ∀ pieceId piece, cloud.doc (.pieces pieceId) = some piece →
      (∃ old, s.cloud.doc (.pieces pieceId) = some old ∧
        piece.read "ownerId" = old.read "ownerId" ∧ ∀ uid, TakesPart piece uid → TakesPart old uid) ∨
      ∃ uid, piece.read "ownerId" = .string uid ∧ (∀ uid', TakesPart piece uid' → uid' = uid) ∧
        ∀ owner, ((∃ invitee, s.Invited pieceId owner invitee) ∨
          ∃ call ∈ s.running, call.Inviting pieceId owner) → owner = uid)
    (hinboxes : ∀ recipientUid messageId message pieceId,
      cloud.doc (.userInbox recipientUid messageId) = some message →
      invitedTo? message = some pieceId →
      (∃ old, s.cloud.doc (.userInbox recipientUid messageId) = some old ∧
        invitedTo? old = some pieceId) ∨ ∃ owner, s.Invited pieceId owner recipientUid) :
    Authorizing emailKey { s with cloud := cloud } := by
  have howned : ∀ pieceId owner, ((∃ invitee, s.Invited pieceId owner invitee) ∨
      ∃ call ∈ s.running, call.Inviting pieceId owner) → s.OwnedBy pieceId owner →
      OwnedBy { s with cloud := cloud } pieceId owner := by
    intro pieceId owner hinvites hown piece hdoc
    rcases hpieces pieceId piece hdoc with ⟨old, hold, howner, -⟩ | ⟨uid, howner, -, honly⟩
    · rw [howner]
      exact hown old hold
    · rw [howner, honly owner hinvites]
  constructor
  · intro pieceId piece hdoc uid hpart
    rcases hpieces pieceId piece hdoc with ⟨old, hold, howner, hmembers⟩ | ⟨uid', howner, hself, -⟩
    · rw [howner]
      exact h.participants pieceId old hold uid (hmembers uid hpart)
    · left
      rw [howner, hself uid hpart]
  · intro recipientUid messageId message pieceId hdoc hq
    rcases hinboxes recipientUid messageId message pieceId hdoc hq with ⟨old, hold, hq⟩ | hinvited
    · exact h.inboxes recipientUid messageId old pieceId hold hq
    · exact hinvited
  · intro pieceId owner uid hinvited
    exact howned pieceId owner (.inl ⟨uid, hinvited⟩) (h.owners pieceId owner uid hinvited)
  · intro call hcall
    refine (h.calls call hcall).mono (List.Subset.refl _) fun pieceId owner hinviting => ?_
    exact howned pieceId owner (.inr ⟨call, hcall, hinviting⟩)

/-- What the rules let a client do to a piece. -/
theorem pieces_of_permitsWrite {c : Cloud} {write : Write} {fields : Fields}
    (hpath : write.path = .pieces pieceId) (hpermits : c.permitsWrite (some uid) write)
    (hfields : write.result (c.doc write.path) = .ok (some fields)) :
    (∃ old, c.doc (.pieces pieceId) = some old ∧ fields.read "ownerId" = old.read "ownerId" ∧
      ∀ uid, TakesPart fields uid → TakesPart old uid) ∨
    c.doc (.pieces pieceId) = none ∧ fields.read "ownerId" = .string uid ∧
      ∀ uid', TakesPart fields uid' → uid' = uid := by
  rw [Cloud.permitsWrite, hfields] at hpermits
  dsimp only at hpermits
  rw [hpath, Cloud.permits, Cloud.verdict] at hpermits
  rcases hold : c.doc (.pieces pieceId) with _ | old
  all_goals simp only [hold, Option.isSome, reduceIte, Bool.false_eq_true] at hpermits
  · obtain ⟨howner, hids, -⟩ := holds_piecesRule_create.mp hpermits
    refine .inr ⟨rfl, by simp [Fields.read, howner], ?_⟩
    intro uid' hpart
    simpa [TakesPart, Fields.read, hids, arrayContains] using hpart
  · obtain ⟨hold, hnew, ⟨ids, hids, hids'⟩, -⟩ := holds_piecesRule_update.mp hpermits
    rw [dataField_some] at hold hids'
    refine .inl ⟨old, rfl, by simp [Fields.read, hold, hnew], ?_⟩
    intro uid' hpart
    simpa [TakesPart, Fields.read, hids, hids'] using hpart

theorem step_authorizing_write {write : Write} (h : Authorizing emailKey s)
    (hkeeps : s.KeepsInvites (.write uid write))
    (hstep : step emailKey s (.write uid write) = some t) : Authorizing emailKey t := by
  obtain ⟨hpermits, fields, hfields, rfl⟩ := write_step.mp hstep
  apply h.with_cloud
  · intro pieceId piece hdoc
    rw [Cloud.doc_store] at hdoc
    split_ifs at hdoc with hpath
    · subst hdoc
      rcases pieces_of_permitsWrite hpath.symm hpermits hfields with hold | ⟨hnone, howner, hself⟩
      · exact .inl hold
      · refine .inr ⟨uid, howner, hself, ?_⟩
        simp only [KeepsInvites, ← hpath] at hkeeps
        exact hkeeps hnone
    · exact .inl ⟨piece, hdoc, rfl, fun _ => id⟩
  · intro recipientUid messageId message pieceId hdoc hq
    rw [Cloud.doc_store] at hdoc
    split_ifs at hdoc with hpath
    · subst hdoc
      simp only [KeepsInvites, ← hpath] at hkeeps
      exact hkeeps message pieceId (hpath ▸ hfields) hq
    · exact .inl ⟨message, hdoc, hq⟩

theorem step_authorizing_call {request : Request} (h : Authorizing emailKey s) :
    Authorizing emailKey { s with
      running := s.running ++ [⟨request, request.program emailKey⟩] } := by
  refine ⟨h.participants, h.inboxes, h.owners, ?_⟩
  intro call hcall
  rcases List.mem_append.mp hcall with hcall | hcall
  · exact h.calls call hcall
  obtain rfl := List.mem_singleton.mp hcall
  cases request with
  | sendInvite auth data messageId now => exact InviteStage.asked
  | acceptInvite auth data => exact AcceptStage.asked
  | leavePiece auth data =>
    exact issues_leavePiece (fun _ => trivial) (fun _ => .inl ⟨_, rfl⟩) auth data
      fun uid pieceId _ _ _ _ _ => .inr ⟨pieceId, uid, _, rfl⟩
  | deleteAccount auth recent schedule =>
    exact issues_deleteAccount (fun _ => trivial) (fun _ => trivial) (fun _ => .inl ⟨_, rfl⟩) auth
      recent schedule fun uid _ _ piece _ _ => ⟨uid, pieceIdOf piece.1, rfl⟩

/-- A step keeps every participant invited, as long as clients keep the invites as they are. -/
theorem step_authorizing {event : ServerEvent} (h : Authorizing emailKey s)
    (hkeeps : s.KeepsInvites event) (hstep : step emailKey s event = some t) :
    Authorizing emailKey t := by
  cases event with
  | write uid write => exact step_authorizing_write h hkeeps hstep
  | call request =>
    obtain rfl := Option.some.inj hstep
    exact step_authorizing_call h
  | advance i =>
    obtain ⟨⟨request, program⟩, op, k, hi, hprogram, rfl⟩ := advance_step.mp hstep
    have hcall := List.mem_of_getElem? hi
    cases request with
    | sendInvite auth data messageId now =>
      exact authorizing_sendInvite h hcall (by simp only at hprogram; simp [hprogram, next?])
    | acceptInvite auth data => exact authorizing_acceptInvite h hcall
    | leavePiece auth data => exact authorizing_drops h hcall (.inl ⟨_, _, rfl⟩)
    | deleteAccount auth recent schedule => exact authorizing_drops h hcall (.inr ⟨_, _, _, rfl⟩)

/-- In a run that keeps the invites as they are, everybody who takes part in a piece owns it or has
been invited by its owner. -/
theorem participants_invited (emailKey : String → String) {events : List ServerEvent}
    (hkeeps : EachStep (step emailKey) KeepsInvites initial events)
    (hrun : run (step emailKey) initial events = some s) : s.ParticipantsInvited :=
  (run_invariant (fun _ _ _ h hk hs => step_authorizing h hk hs) authorizing_initial hkeeps
    hrun).participants

/-! ## Two runs -/

/-- `ann` has created the sonata and `carol` the études; `bob` can be found by his address. -/
def sonata : Fields := Assoc.ofList [("title", .string "Sonata"), ("ownerId", .string "ann"),
  ("participantIds", .array [.string "ann"]), ("collaborators", .array [])]

def etudes : Fields := Assoc.ofList [("title", .string "Études"), ("ownerId", .string "carol"),
  ("participantIds", .array [.string "carol"]), ("collaborators", .array [])]

def bobsEntry : Fields := Assoc.ofList [("uid", .string "bob"), ("discoverable", .bool true)]

/-- `ann` invites `bob` to the sonata. -/
def annInvites : List ServerEvent :=
  [.write "ann" (.set (.pieces "sonata") sonata),
    .write "carol" (.set (.pieces "etudes") etudes),
    .write "bob" (.set (.usersByEmail "bob@duet.app") bobsEntry),
    .call (.sendInvite (some ⟨"ann", none, none⟩)
      [("pieceId", .string "sonata"), ("inviteeEmail", .string "bob@duet.app")] "message" 0),
    .advance 0, .advance 0, .advance 0]

/-- `bob` accepts. -/
def bobAccepts : List ServerEvent :=
  [.call (.acceptInvite (some ⟨"bob", none, none⟩) [("messageId", .string "message")]),
    .advance 1, .advance 1, .advance 1]

/-- Before he does, `bob` may rewrite the message that he got. -/
def bobRewrites : ServerEvent :=
  .write "bob" (.update (.userInbox "bob" "message") [("data", .set (mapOf
    [("type", .string "invite"), ("pieceId", .string "etudes"), ("ownerId", .string "carol")]))])

/-- Afterwards he marks it read. -/
def bobMarksRead : ServerEvent :=
  .write "bob" (.update (.userInbox "bob" "message") [("read", .set (.bool true))])

theorem participants_invited_bob : ∃ s,
    run (step id) initial (annInvites ++ bobAccepts ++ [bobMarksRead]) = some s ∧
      s.ParticipantsInvited ∧
      ∃ piece, s.cloud.doc (.pieces "sonata") = some piece ∧ TakesPart piece "bob" := by
  have hbob : (run (step id) initial (annInvites ++ bobAccepts ++ [bobMarksRead])).any (fun s =>
      (s.cloud.doc (.pieces "sonata")).any fun piece => TakesPart piece "bob") = true := by
    decide +kernel
  obtain ⟨s, hrun, hbob⟩ := (Option.any_eq_true _ _).mp hbob
  obtain ⟨piece, hpiece, hbob⟩ := (Option.any_eq_true _ _).mp hbob
  refine ⟨s, hrun, participants_invited id ?_ hrun, piece, hpiece, of_decide_eq_true hbob⟩
  -- nobody has invited anybody when the two pieces are created
  refine ⟨fun _ owner => ?_, fun s₁ hs₁ => ⟨fun _ owner => ?_, fun _ _ => ⟨trivial, fun _ _ => ?_⟩⟩⟩
  · rintro (⟨invitee, entry, hentry, -⟩ | ⟨call, hcall, -⟩)
    · cases hentry
    · cases hcall
  · obtain ⟨-, fields, -, rfl⟩ := write_step.mp hs₁
    rintro (⟨invitee, entry, hentry, -⟩ | ⟨call, hcall, -⟩)
    · cases hentry
    · cases hcall
  · exact ⟨trivial, fun _ _ => ⟨trivial, fun _ _ => ⟨trivial, fun _ _ => ⟨trivial, fun _ _ =>
      ⟨trivial, fun _ _ => ⟨trivial, fun _ _ => ⟨trivial, fun _ _ => ⟨trivial, fun _ _ =>
        ⟨keepsInvites_markRead, fun _ _ => trivial⟩⟩⟩⟩⟩⟩⟩⟩⟩

/-- Nobody has invited `bob` to the études. -/
theorem uninvited_participant : ∃ s,
    run (step id) initial (annInvites ++ bobRewrites :: bobAccepts) = some s ∧
      ¬s.ParticipantsInvited := by
  have hbob : (run (step id) initial (annInvites ++ bobRewrites :: bobAccepts)).any (fun s =>
      s.replies.all (fun entry => ¬IsInvite "etudes" "carol" "bob" entry) &&
      (s.cloud.doc (.pieces "etudes")).any fun piece =>
        TakesPart piece "bob" ∧ piece.read "ownerId" = .string "carol") = true := by
    decide +kernel
  obtain ⟨s, hrun, hbob⟩ := (Option.any_eq_true _ _).mp hbob
  obtain ⟨huninvited, hbob⟩ := Bool.and_eq_true_iff.mp hbob
  obtain ⟨piece, hpiece, hbob⟩ := (Option.any_eq_true _ _).mp hbob
  obtain ⟨hpart, howner⟩ := of_decide_eq_true hbob
  refine ⟨s, hrun, fun h => ?_⟩
  rcases h "etudes" piece hpiece "bob" hpart with hself | ⟨owner, hown, entry, hentry, hinvite⟩
  · exact absurd (howner.symm.trans hself) (by decide)
  · obtain rfl := Value.string.inj (howner.symm.trans hown)
    exact of_decide_eq_true (List.all_eq_true.mp huninvited entry hentry) hinvite

end Server

end Duet
