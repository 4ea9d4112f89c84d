import Duet.Cloud.AnnotationRules
import Duet.Cloud.Invitations
import Duet.Cloud.PieceRepository

/-!
# The piece repository under the rules

Which calls of a user the rules let through. A piece is created by its owner and renamed and
deleted by its owner; who takes part in it is for the callables to change, so the writes of
`removeCollaborator` and `leavePiece` are denied.

## Main results

* `PieceCall.pieceCall_permitted_iff` — which calls are permitted.
* `not_piecesPermitted` — a collaborator who cannot leave.
-/

namespace Duet

open Lib Program

/-- Every read and every write of the operation is permitted; the device has no rules. -/
def ClientOperation.Permitted (auth : Auth) : ClientOperation → Client → Prop
  | .firestore op, client => op.Permitted auth client.cloud
  | _, _ => True

/-- Every write of the operation is permitted. -/
def ClientOperation.WritesPermitted (auth : Auth) : ClientOperation → Client → Prop
  | .firestore (.get _), _ => True
  | op, client => op.Permitted auth client

/-- A call on the piece repository; a piece that is registered is the user's own, without
collaborators. -/
inductive PieceCall where
  | importPiece (title sourcePath : String) (ownerName : Option String)
  | registerOwnPiece (pieceId title sourcePath : String) (ownerName : Option String)
  | renamePiece (pieceId title : String)
  | deletePiece (pieceId : String)
  | removeCollaborator (pieceId userId : String)
  | leavePiece (pieceId : String)
  | markOpened (pieceId : String)
  deriving DecidableEq, Repr

/-- The document holds that piece. -/
def Cloud.HoldsPiece (cloud : Cloud) (pieceId : String) (piece : Piece) : Prop :=
  ∃ data, cloud.doc (.pieces pieceId) = some data ∧ pieceFromFirestore pieceId data "" = some piece

/-- The user is listed in the participants of the document. -/
def Cloud.Lists (cloud : Cloud) (pieceId user : String) : Prop :=
  cloud.permits (some user) (.pieces pieceId) .get

/-- The participants and the collaborators are stored as a piece that is read from the document
writes them. -/
def Cloud.StoresMembers (cloud : Cloud) (pieceId : String) (piece : Piece) : Prop :=
  ∃ data, cloud.doc (.pieces pieceId) = some data ∧
    data.get "participantIds" = some (.array (piece.participantIds.map .string)) ∧
    data.get "collaborators" = some (.array (piece.collaborators.map collaboratorToFirestore))

namespace PieceCall

/-- The repository's operation for a call. -/
def program (platform : Platform) (user : String) : PieceCall → ClientProgram Unit
  | importPiece title sourcePath ownerName => do
    let _ ← Firestore.importPiece platform user title sourcePath ownerName
    done ()
  | registerOwnPiece pieceId title sourcePath ownerName => do
    let _ ← Firestore.registerImportedPiece platform pieceId title user sourcePath none ownerName
      none
    done ()
  | renamePiece pieceId title => Firestore.renamePiece pieceId title
  | deletePiece pieceId => Firestore.deletePiece user pieceId
  | removeCollaborator pieceId userId => Firestore.removeCollaborator user pieceId userId
  | leavePiece pieceId => Firestore.leavePiece user pieceId
  | markOpened pieceId => Firestore.markOpened user pieceId

/-- Who makes the call: the owner renames, deletes and removes a current collaborator, a current
collaborator leaves, a participant opens; a new piece has an unused id. -/
def MadeBy (user : String) (given : Given) (cloud : Cloud) : PieceCall → Prop
  | importPiece .. => cloud.doc (.pieces given.docId) = none
  | registerOwnPiece pieceId .. => cloud.doc (.pieces pieceId) = none
  | renamePiece pieceId _ | deletePiece pieceId =>
    ∃ piece, cloud.HoldsPiece pieceId piece ∧ piece.ownerId = user
  | removeCollaborator pieceId userId => ∃ piece, cloud.HoldsPiece pieceId piece ∧
      piece.ownerId = user ∧ piece.isCollaborator userId = true
  | leavePiece pieceId => ∃ piece, cloud.HoldsPiece pieceId piece ∧ piece.ownerId ≠ user ∧
      piece.isCollaborator user = true
  | markOpened pieceId => cloud.Lists pieceId user

/-- Every read and every write that the call issues is permitted. -/
def Permitted (platform : Platform) (given : Given) (user : String) (client : Client)
    (call : PieceCall) : Prop :=
  (call.program platform user).EachCall (ClientOperation.interpret platform given)
    (ClientOperation.Permitted (some user)) client

/-- Every write that the call issues is permitted. -/
def WritesPermitted (platform : Platform) (given : Given) (user : String) (client : Client)
    (call : PieceCall) : Prop :=
  (call.program platform user).EachCall (ClientOperation.interpret platform given)
    (ClientOperation.WritesPermitted (some user)) client

end PieceCall

/-! ## What the documents say -/

namespace Cloud

variable {cloud : Cloud} {pieceId user : String} {piece changed : Piece}

theorem HoldsPiece.ownerId (h : cloud.HoldsPiece pieceId piece) :
    dataField (cloud.doc (.pieces pieceId)) "ownerId" = some (.string piece.ownerId) := by
  obtain ⟨data, hdoc, hread⟩ := h
  simp only [pieceFromFirestore, Option.bind_eq_bind, Option.bind_eq_some_iff, Option.pure_def,
    Option.some.injEq] at hread
  obtain ⟨title, -, checksum, -, ownerId, howner, ownerName, -, collaborators, -, createdAt, -,
    updatedAt, -, rfl⟩ := hread
  rw [hdoc, dataField_some]
  cases hvalue : data.read "ownerId" with
  | string value =>
    rw [hvalue] at howner
    obtain rfl := Option.some.inj howner
    exact Fields.read_eq_string.mp hvalue
  | _ => simp [hvalue, Value.asString] at howner

theorem HoldsPiece.collaborators (h : cloud.HoldsPiece pieceId piece) :
    ∃ data, cloud.doc (.pieces pieceId) = some data ∧
      collaboratorsFrom (data.read "collaborators") = some piece.collaborators := by
  obtain ⟨data, hdoc, hread⟩ := h
  simp only [pieceFromFirestore, Option.bind_eq_bind, Option.bind_eq_some_iff, Option.pure_def,
    Option.some.injEq] at hread
  obtain ⟨title, -, checksum, -, ownerId, -, ownerName, -, collaborators, hcollaborators,
    createdAt, -, updatedAt, -, rfl⟩ := hread
  exact ⟨data, hdoc, hcollaborators⟩

@[simp] theorem get_pieceToFirestore_ownerId (piece : Piece) :
    Assoc.get (pieceToFirestore piece) "ownerId" = some (.string piece.ownerId) := by
  simp [pieceToFirestore, Assoc.ofList]

@[simp] theorem get_pieceToFirestore_participantIds (piece : Piece) :
    Assoc.get (pieceToFirestore piece) "participantIds" =
      some (.array (piece.participantIds.map .string)) := by
  simp [pieceToFirestore, Assoc.ofList]

@[simp] theorem get_pieceToFirestore_collaborators (piece : Piece) :
    Assoc.get (pieceToFirestore piece) "collaborators" =
      some (.array (piece.collaborators.map collaboratorToFirestore)) := by
  simp [pieceToFirestore, Assoc.ofList]

theorem HoldsPiece.unique {piece' : Piece} (h : cloud.HoldsPiece pieceId piece)
    (h' : cloud.HoldsPiece pieceId piece') : piece = piece' := by
  obtain ⟨data, hdoc, hread⟩ := h
  obtain ⟨data', hdoc', hread'⟩ := h'
  obtain rfl := Option.some.inj (hdoc.symm.trans hdoc')
  exact Option.some.inj (hread.symm.trans hread')

/-- A piece is created by its owner, alone in it. -/
theorem permitsWrite_createPiece (hnew : cloud.doc (.pieces pieceId) = none)
    (howner : piece.ownerId = user) (hnone : piece.collaborators = []) :
    cloud.permitsWrite (some user) (.set (.pieces pieceId) (pieceToFirestore piece)) := by
  have hcreate : (piecesRule (some user) none (.create (pieceToFirestore piece))).Holds := by
    refine holds_piecesRule_create.mpr ⟨?_, ?_, ?_⟩
    · rw [get_pieceToFirestore_ownerId, howner]
    · rw [get_pieceToFirestore_participantIds, Piece.participantIds, Piece.collaboratorIds, hnone,
        howner]
      rfl
    · rw [get_pieceToFirestore_collaborators, hnone]
      rfl
  simpa [permitsWrite, Write.result, Write.path, permits, verdict, hnew] using hcreate

/-- A piece is written again by its owner, with the members that are stored. -/
theorem permitsWrite_setPiece_iff (h : cloud.HoldsPiece pieceId piece)
    (hsame : changed.ownerId = piece.ownerId) :
    cloud.permitsWrite (some user) (.set (.pieces pieceId) (pieceToFirestore changed)) ↔
      piece.ownerId = user ∧ cloud.StoresMembers pieceId changed := by
  have howner := h.ownerId
  obtain ⟨data, hdoc, -⟩ := h
  rw [hdoc, dataField_some] at howner
  have hupdate : (piecesRule (some user) (some data) (.update (pieceToFirestore changed))).Holds ↔
      _ := holds_piecesRule_update
  simp only [permitsWrite, Write.result, Write.path, permits, verdict, hdoc, Option.isSome_some,
    if_true]
  rw [hupdate]
  simp only [dataField_some, howner, get_pieceToFirestore_ownerId, hsame,
    get_pieceToFirestore_participantIds, get_pieceToFirestore_collaborators, StoresMembers, hdoc,
    Option.some.injEq, Value.string.injEq]
  grind

end Cloud

/-! ## The calls -/

namespace PieceCall

open Firestore Fallible

variable {platform : Platform} {given : Given} {user pieceId : String} {client : Client}
  {piece changed : Piece} {okAt : ClientOperation → Client → Prop}

/-- The preferences have no rules. -/
theorem eachCall_forgetBasePath (pieceId : String) :
    (forgetBasePath pieceId).EachCall (ClientOperation.interpret platform given)
      (ClientOperation.Permitted (some user)) client := by
  refine ⟨trivial, fun response t _ => ?_⟩
  cases response with
  | error e => trivial
  | ok paths => exact ⟨trivial, fun response t _ => by cases response <;> trivial⟩

theorem permitted_onFirestore {α : Type} (p : AdminProgram α) :
    (onFirestore p).EachCall (ClientOperation.interpret platform given)
        (ClientOperation.Permitted (some user)) client ↔
      p.EachCall Operation.perform (Operation.Permitted (some user)) client.cloud :=
  eachCall_onFirestore (fun _ _ => .rfl) p

/-- A mutation reads the document, and writes it when it changes the piece. -/
theorem eachCall_mutate (h : client.cloud.HoldsPiece pieceId piece)
    {change : Piece → Except CloudFailure (Option Piece)}
    (hchange : change piece = .ok (some changed)) :
    (mutate pieceId change).EachCall (ClientOperation.interpret platform given)
        (ClientOperation.Permitted (some user)) client ↔
      client.cloud.Lists pieceId user ∧ client.cloud.permitsWrite (some user)
        (.set (.pieces pieceId) (pieceToFirestore { changed with updatedAt := given.now })) := by
  obtain ⟨data, hdoc, hread⟩ := h
  have hpiece : pieceFrom pieceId (some data) "" = .ok piece := by
    rw [pieceFrom, hread]
  have htransaction : client.cloud.permitsTransaction (some user)
      (mutation pieceId given.now change) ↔ client.cloud.Lists pieceId user ∧
        client.cloud.permitsWrite (some user)
          (.set (.pieces pieceId) (pieceToFirestore { changed with updatedAt := given.now })) := by
    simp only [mutation, Cloud.permitsTransaction, hdoc, hpiece, Except.bind, hchange,
      List.mem_singleton, forall_eq]
    rfl
  rw [mutate, ask, eachCall_ask_bind]
  constructor
  · rintro ⟨-, h⟩
    have hrest := h given.now client rfl
    rw [permitted_onFirestore, eachCall_transaction] at hrest
    exact htransaction.mp hrest
  · intro h
    refine ⟨trivial, fun now client' hnow => ?_⟩
    obtain ⟨hvalue, rfl⟩ := Prod.mk.inj hnow
    obtain rfl := Except.ok.inj hvalue
    rw [permitted_onFirestore, eachCall_transaction]
    exact htransaction.mpr h

theorem permitted_renamePiece_iff {title : String} (h : client.cloud.HoldsPiece pieceId piece)
    (howner : piece.ownerId = user) :
    (renamePiece pieceId title).Permitted platform given user client ↔
      client.cloud.Lists pieceId user ∧ client.cloud.StoresMembers pieceId piece := by
  rw [Permitted, program, Firestore.renamePiece, eachCall_guarding, eachCall_mutate h rfl]
  refine and_congr_right fun _ => (Cloud.permitsWrite_setPiece_iff h (by rfl)).trans ?_
  exact and_iff_right howner

theorem permitted_deletePiece_iff (h : client.cloud.HoldsPiece pieceId piece)
    (howner : piece.ownerId = user) :
    (deletePiece pieceId).Permitted platform given user client ↔
      client.cloud.Lists pieceId user := by
  have hdelete : client.cloud.permitsWrite (some user) (.delete (.pieces pieceId)) := by
    have hfield := h.ownerId
    rw [howner] at hfield
    exact holds_isOwner.mpr hfield
  obtain ⟨data, hdoc, hread⟩ := h
  have hpiece : pieceFrom pieceId (some data) "" = .ok piece := by
    rw [pieceFrom, hread]
  rw [Permitted, program, Firestore.deletePiece, eachCall_guarding, eachCall_bind,
    permitted_onFirestore, eachCall_transaction]
  constructor
  · intro ⟨htransaction, _⟩
    exact htransaction.1
  · intro hlists
    refine ⟨⟨hlists, ?_⟩, fun _ t _ => ?_⟩
    · simp only [hdoc, hpiece, howner, ne_eq, not_true, if_false, Cloud.permitsTransaction,
        List.mem_singleton, forall_eq]
      exact hdelete
    · exact eachCall_forgetBasePath pieceId

/-- Removing a collaborator changes the collaborators. -/
theorem not_storesMembers_without {userId : String} (h : client.cloud.HoldsPiece pieceId piece)
    (hin : piece.isCollaborator userId = true) (now : DateTime) :
    ¬client.cloud.StoresMembers pieceId
      { withoutCollaborator piece userId with updatedAt := now } := by
  intro ⟨data, hdoc, _, hstored⟩
  obtain ⟨data', hdoc', hread⟩ := h.collaborators
  obtain rfl := Option.some.inj (hdoc.symm.trans hdoc')
  rw [Fields.read, hstored, Option.getD_some, collaboratorsFrom_map, Option.some.injEq] at hread
  simp only [withoutCollaborator] at hread
  obtain ⟨c, hc, hid⟩ := List.any_eq_true.mp hin
  rw [← hread] at hc
  have hne := (List.mem_filter.mp hc).2
  simp only [beq_iff_eq] at hid
  simp [hid] at hne

/-- The write of a removal is denied. -/
theorem not_permitted_removeCollaborator {userId : String}
    (h : client.cloud.HoldsPiece pieceId piece) (howner : piece.ownerId = user)
    (hin : piece.isCollaborator userId = true) :
    ¬(removeCollaborator pieceId userId).Permitted platform given user client := by
  have hchange : (if user ≠ piece.ownerId then
      .error (.ownershipViolation pieceId (some "only the owner may remove a collaborator"))
    else if !piece.isCollaborator userId then .ok none
    else .ok (some (withoutCollaborator piece userId)) : Except CloudFailure (Option Piece)) =
      .ok (some (withoutCollaborator piece userId)) := by
    simp [howner, hin]
  rw [Permitted, program, Firestore.removeCollaborator, eachCall_guarding,
    eachCall_mutate h hchange]
  intro ⟨_, hwrite⟩
  exact not_storesMembers_without h hin given.now
    ((Cloud.permitsWrite_setPiece_iff h (by rfl)).mp hwrite).2

/-- The write of a collaborator who leaves is denied. -/
theorem not_permitted_leavePiece (h : client.cloud.HoldsPiece pieceId piece)
    (howner : piece.ownerId ≠ user) (hin : piece.isCollaborator user = true) :
    ¬(leavePiece pieceId).Permitted platform given user client := by
  have hchange : (if user = piece.ownerId then
      .error (.stateError "The owner of this piece cannot leave it; delete it instead.")
    else if !piece.isCollaborator user then .ok none
    else .ok (some (withoutCollaborator piece user)) : Except CloudFailure (Option Piece)) =
      .ok (some (withoutCollaborator piece user)) := by
    simp [Ne.symm howner, hin]
  rw [Permitted, program, Firestore.leavePiece, eachCall_guarding, eachCall_mutate h hchange]
  intro ⟨_, hwrite⟩
  exact howner ((Cloud.permitsWrite_setPiece_iff h (by rfl)).mp hwrite).1

theorem permitted_markOpened (h : client.cloud.Lists pieceId user) :
    (markOpened pieceId).Permitted platform given user client := by
  rw [Permitted, program, Firestore.markOpened, eachCall_guarding, ask, eachCall_ask_bind]
  refine ⟨trivial, fun now client' hnow => ?_⟩
  obtain rfl := (Prod.mk.inj hnow).2
  rw [permitted_onFirestore, eachCall_commit]
  intro write hwrite
  rw [List.mem_singleton.mp hwrite]
  have hpart : (isPieceParticipant (some user) (client.cloud.doc (.pieces pieceId))).Holds := h
  cases hdoc : client.cloud.doc (.reads pieceId user) <;>
    simp [Cloud.permitsWrite, Write.result, Write.path, Cloud.permits, Cloud.verdict, readsRule,
      hdoc, hpart, Verdict.holds_eq]

/-- Staging a file issues nothing on Firestore. -/
theorem eachCall_stage (id sourcePath : String) (client : Client) :
    (stageLocally platform id sourcePath).EachCall (ClientOperation.interpret platform given)
      (fun o _ => o.OffFirestore) client := by
  refine ⟨by simp [ClientOperation.OffFirestore], fun response t _ => ?_⟩
  cases response with
  | error e => trivial
  | ok checksum =>
    refine ⟨by simp [ClientOperation.OffFirestore], fun response t _ => ?_⟩
    cases response <;> trivial

theorem eachCall_recordBasePath (pieceId path : String) (client : Client) :
    (recordBasePath pieceId path).EachCall (ClientOperation.interpret platform given)
      (fun o _ => o.OffFirestore) client := by
  refine ⟨by simp [ClientOperation.OffFirestore], fun response t _ => ?_⟩
  cases response with
  | error e => trivial
  | ok paths =>
    refine ⟨by simp [ClientOperation.OffFirestore], fun response t _ => ?_⟩
    cases response <;> trivial

/-- What issues nothing on Firestore may be done before anything else. -/
theorem eachCall_offFirestore_bind {α β : Type} {p : ClientProgram α} {f : α → ClientProgram β}
    (hlocal : ∀ (o : ClientOperation) client, o.OffFirestore → okAt o client)
    (hp : p.EachCall (ClientOperation.interpret platform given) (fun o _ => o.OffFirestore) client)
    (hf : ∀ a t, t.cloud = client.cloud →
      (f a).EachCall (ClientOperation.interpret platform given) okAt t) :
    (p >>= f).EachCall (ClientOperation.interpret platform given) okAt client := by
  refine eachCall_bind.mpr ⟨hp.mono hlocal, fun a t hexec => hf a t ?_⟩
  have hkeeps := hp.keeps fun o t ho => o.cloud_perform ho platform given t
  rwa [hexec] at hkeeps

/-- A new piece is staged on the device and then created. -/
theorem eachCall_create {id title sourcePath : String} {ownerName : Option String}
    (hlocal : ∀ (o : ClientOperation) client, o.OffFirestore → okAt o client)
    (hcommit : ∀ writes client, (∀ write ∈ writes, client.cloud.permitsWrite (some user) write) →
      okAt (.firestore (.commit writes)) client)
    (hnew : client.cloud.doc (.pieces id) = none) :
    (do
      let staged ← stageLocally platform id sourcePath
      recordBasePath id staged.2
      createPiece id title user ownerName [] staged : ClientProgram Piece).EachCall
        (ClientOperation.interpret platform given) okAt client := by
  refine eachCall_offFirestore_bind hlocal (eachCall_stage _ _ _) fun staged c₁ h₁ => ?_
  refine eachCall_offFirestore_bind hlocal (eachCall_recordBasePath _ _ _) fun _ c₂ h₂ => ?_
  rw [createPiece, ask, eachCall_ask_bind]
  refine ⟨hlocal _ _ (by simp [ClientOperation.OffFirestore]), fun now c₃ h₃ => ?_⟩
  obtain rfl := (Prod.mk.inj h₃).2
  refine eachCall_bind.mpr ⟨eachCall_onFirestore_perform.mpr ?_, fun _ _ _ => trivial⟩
  refine hcommit _ _ fun write hwrite => ?_
  rw [List.mem_singleton.mp hwrite]
  exact Cloud.permitsWrite_createPiece (by rw [← hnew, ← h₁, ← h₂]) rfl rfl

theorem permitted_importPiece {title sourcePath : String} {ownerName : Option String}
    (hnew : client.cloud.doc (.pieces given.docId) = none) :
    (importPiece title sourcePath ownerName).Permitted platform given user client := by
  rw [Permitted, program, eachCall_bind, Firestore.importPiece, eachCall_guarding, ask,
    eachCall_ask_bind]
  refine ⟨⟨trivial, fun id client' hid => ?_⟩, fun _ _ _ => trivial⟩
  obtain ⟨hvalue, rfl⟩ := Prod.mk.inj hid
  obtain rfl := Except.ok.inj hvalue
  exact eachCall_create (fun o _ ho => by cases o <;> first | trivial | exact absurd rfl (ho _))
    (fun _ _ h => h) hnew

/-- A piece that is registered is created as it may be. -/
theorem writesPermitted_registerOwnPiece {title sourcePath : String} {ownerName : Option String}
    (hnew : client.cloud.doc (.pieces pieceId) = none) :
    (registerOwnPiece pieceId title sourcePath ownerName).WritesPermitted platform given user
      client := by
  rw [WritesPermitted, program, eachCall_bind, Firestore.registerImportedPiece, eachCall_guarding,
    eachCall_bind]
  have hget : (onFirestore (getDoc (.pieces pieceId))).EachCall
      (ClientOperation.interpret platform given) (ClientOperation.WritesPermitted (some user))
      client := eachCall_onFirestore_perform.mpr trivial
  refine ⟨⟨hget, fun data t hread => ?_⟩, fun _ _ _ => trivial⟩
  rw [exec_onFirestore] at hread
  obtain ⟨hvalue, rfl⟩ := Prod.mk.inj hread
  obtain rfl : client.cloud.doc (.pieces pieceId) = data := Except.ok.inj hvalue
  rw [hnew, if_neg (by simp)]
  exact eachCall_create (fun o _ ho => by cases o <;> first | trivial | exact absurd rfl (ho _))
    (fun _ _ h => h) hnew

/-- The owner may create a piece, may rename it as long as its members are stored as they are read,
and may delete it as long as it is listed; a participant may open it; nobody may leave it or remove
a collaborator. -/
theorem pieceCall_permitted_iff {call : PieceCall} (h : call.MadeBy user given client.cloud) :
    match call with
    | importPiece .. | markOpened _ => call.Permitted platform given user client
    | registerOwnPiece .. => call.WritesPermitted platform given user client
    | renamePiece pieceId _ => call.Permitted platform given user client ↔
        client.cloud.Lists pieceId user ∧
          ∃ piece, client.cloud.HoldsPiece pieceId piece ∧ client.cloud.StoresMembers pieceId piece
    | deletePiece pieceId =>
        call.Permitted platform given user client ↔ client.cloud.Lists pieceId user
    | removeCollaborator .. | leavePiece _ => ¬call.Permitted platform given user client := by
  cases call with
  | importPiece title sourcePath ownerName => exact permitted_importPiece h
  | registerOwnPiece pieceId title sourcePath ownerName => exact writesPermitted_registerOwnPiece h
  | renamePiece pieceId title =>
    obtain ⟨piece, hpiece, howner⟩ := h
    refine (permitted_renamePiece_iff hpiece howner).trans (and_congr_right fun _ => ?_)
    constructor
    · intro hmembers
      exact ⟨piece, hpiece, hmembers⟩
    · intro ⟨piece', hpiece', hmembers⟩
      rwa [hpiece.unique hpiece']
  | deletePiece pieceId =>
    obtain ⟨piece, hpiece, howner⟩ := h
    exact permitted_deletePiece_iff hpiece howner
  | removeCollaborator pieceId userId =>
    obtain ⟨piece, hpiece, howner, hin⟩ := h
    exact not_permitted_removeCollaborator hpiece howner hin
  | leavePiece pieceId =>
    obtain ⟨piece, hpiece, howner, hin⟩ := h
    exact not_permitted_leavePiece hpiece howner hin
  | markOpened pieceId => exact permitted_markOpened h

end PieceCall

/-! ## A collaborator who cannot leave -/

/-- A client that has nothing on its device. -/
def Client.onCloud (cloud : Cloud) : Client := ⟨.fresh, cloud, [], [], [], [], [], 0⟩

/-- Ann creates a piece and invites bob, who accepts. -/
def annsDuet : List ServerEvent :=
  [.write "ann" (.set (.pieces "p") (pieceToFirestore annsEtude)),
    .write "bob" (.set (.usersByEmail "bob@duet.app") Server.bobsEntry),
    .call (.sendInvite (some ⟨"ann", none, none⟩)
      [("pieceId", .string "p"), ("inviteeEmail", .string "bob@duet.app")] "message" 0),
    .advance 0, .advance 0, .advance 0] ++ Server.bobAccepts

/-- A platform on which a copy onto itself empties a file. -/
def truncating : Platform := ⟨"documents", fun _ => "c0ffee", fun _ => .bytes []⟩

/-- Ann, alone on her piece, may rename it. -/
theorem PieceCall.pieceCall_permitted_iff_annsEtude :
    (renamePiece "p" "Study").Permitted truncating ⟨noon, "", true⟩ "ann" (.onCloud annsCloud) ↔
      annsCloud.Lists "p" "ann" ∧
        ∃ piece, annsCloud.HoldsPiece "p" piece ∧ annsCloud.StoresMembers "p" piece := by
  have hmade : (renamePiece "p" "Study").MadeBy "ann" ⟨noon, "", true⟩
      (Client.onCloud annsCloud).cloud := ⟨annsEtude, ⟨_, rfl, by decide +kernel⟩, rfl⟩
  exact PieceCall.pieceCall_permitted_iff hmade

/-- Bob, who has joined ann's piece, leaves it: his write of the piece is denied. -/
theorem not_piecesPermitted :
    ¬∀ s, Server.Reachable id s → ∀ platform given user (client : Client) (call : PieceCall),
      client.cloud = s.cloud → call.MadeBy user given client.cloud →
        call.Permitted platform given user client := by
  intro hall
  have hbob : (run (Server.step id) .initial annsDuet).any (fun s =>
      ((s.cloud.doc (.pieces "p")).bind fun data => pieceFromFirestore "p" data "").any
        fun piece => piece.ownerId ≠ "bob" ∧ piece.isCollaborator "bob" = true) = true := by
    decide +kernel
  obtain ⟨s, hrun, hbob⟩ := (Option.any_eq_true _ _).mp hbob
  obtain ⟨piece, hpiece, hbob⟩ := (Option.any_eq_true _ _).mp hbob
  obtain ⟨data, hdoc, hread⟩ := Option.bind_eq_some_iff.mp hpiece
  obtain ⟨howner, hin⟩ := of_decide_eq_true hbob
  have hmade : (PieceCall.leavePiece "p").MadeBy "bob" ⟨noon, "", true⟩ s.cloud :=
    ⟨piece, ⟨data, hdoc, hread⟩, howner, hin⟩
  exact PieceCall.not_permitted_leavePiece ⟨data, hdoc, hread⟩ howner hin
    (hall s ⟨_, hrun⟩ truncating ⟨noon, "", true⟩ "bob" (.onCloud s.cloud) (.leavePiece "p") rfl
      hmade)

end Duet
