import Duet.Cloud.AnnotationAgreement
import Duet.Cloud.PieceMirror
import Duet.Cloud.Unread

/-!
# What the two piece repositories show

The same calls, one at a time, on the local repositories and on those of Firestore, with the same
clock and the same files. Both keep to the contract, so they show the same pieces; what differs is
told by three records. A piece is `adrift` once it has been paired with a collaborator whose entry was
there: Firestore stamps it, the device does not. Annotations are `purged` once the device has dropped
some: in the cloud a function does. And the device keeps watermarks in milliseconds.

## Main definitions

* `PieceRepositories.step` — a call on both sides.
* `PieceRepositories.ShowTheSame` — what both sides show.

## Main results

* `pieceRepositories_agree` — over any sequence of calls.
-/

namespace Duet

open Lib

namespace Firestore

/-- The newest first; of two with the same time, the one with the greater id. -/
def newestFirst (a b : Piece) : Prop :=
  b.updatedAt.micros < a.updatedAt.micros ∨
    b.updatedAt.micros = a.updatedAt.micros ∧ b.id ≤ a.id

instance : DecidableRel newestFirst := fun _ _ => inferInstanceAs (Decidable (_ ∨ _ ∧ _))

/-- `watchPieces`, as a listener who comes now is shown: the pieces that the user takes part in. -/
def watchPieces (client : Client) (uid : String) : Option (List Piece) :=
  let docs := (client.cloud.list (.piecesOf uid)).filter fun entry =>
    (entry.2.get "updatedAt").isSome
  let pieces := docs.mapM fun entry => pieceFromFirestore entry.1.id entry.2
    ((client.basePaths.get entry.1.id).getD "")
  pieces.map (List.insertionSort newestFirst)

end Firestore

/-- The piece with another time. -/
def Piece.stampedAt (t : DateTime) (piece : Piece) : Piece := { piece with updatedAt := t }

/-! ## A call on both sides -/

/-- Both repositories with their stores. `adrift` are the pieces that pairing has stamped on one side
alone, `purged` those of which the device has dropped annotations. -/
structure PieceRepositories where
  pieces : LocalPieces
  device : Device
  client : Client
  adrift : List String
  purged : List String

/-- A call, with the user who is signed in, the time on the clock and what the file at the source path
holds. -/
structure PieceRequest where
  user : String
  now : DateTime
  source : Option Content
  call : RepositoryCall
  deriving DecidableEq, Repr

namespace PieceRequest

variable (platform : Platform) (zone : TimeZone) (r : PieceRequest)

def given : Given := ⟨r.now, "", false⟩

/-- The file is where the call has it. -/
def place (client : Client) : Client :=
  { client with device := { client.device with
    files := match r.source with
      | some content => client.device.files.set r.call.sourcePath content
      | none => client.device.files.erase r.call.sourcePath } }

/-- The checksum of the file, and where it is copied to. -/
def staged : Option (String × String) :=
  r.source.map fun content => (platform.sha256 content,
    piecesPath platform.documentsDirectory r.call.pieceId r.call.sourcePath)

/-- The surroundings on the device: the stores do not fail. -/
def env : PieceEnv where
  currentUserId := r.user
  idTime := r.now
  now := r.now
  copied := match r.staged platform with
    | some staged => .ok staged
    | none => .error (.platform .checksumPdf)
  annotations := .ok ()

/-- What the local repository asks of the annotation repository. -/
def dropping (s : LocalPieces) : Option AnnotationCall :=
  (s.findPiece r.call.pieceId).bind fun piece =>
    match r.call with
    | .deletePiece _ => if r.user = piece.ownerId then some .clearPiece else none
    | .leavePiece _ =>
      if r.user ≠ piece.ownerId ∧ piece.isCollaborator r.user then some (.removeAuthorSlice r.user)
      else none
    | .removeCollaborator _ userId =>
      if r.user = piece.ownerId ∧ piece.isCollaborator userId then some (.removeAuthorSlice userId)
      else none
    | _ => none

/-- The collaborator who is paired has their entry already. -/
def pairsIdly (s : LocalPieces) : Bool :=
  match r.call with
  | .pairCollaborator pieceId collaboratorId name email _ =>
    (s.findPiece pieceId).any fun piece => LocalPieces.isAdded piece collaboratorId name email
  | _ => false

/-- The call on `LocalPieceRepository`. -/
def onDevice (s : PieceRepositories) : Except Failure Unit × LocalPieces :=
  (r.call.onDevice.program zone (r.env platform)).exec s.pieces

/-- The annotations on the device after the call. -/
def onAnnotations (s : PieceRepositories) : Device :=
  match r.dropping s.pieces with
  | none => s.device
  | some call => ((call.perform (.quiet r.user r.now) r.call.pieceId).exec s.device).2

/-- What the call leaves of the annotations of its piece on the device. -/
def purging (s : LocalPieces) (a : PieceAnnotations) : PieceAnnotations :=
  match r.dropping s with
  | none => a
  | some call =>
    (call.written r.call.pieceId r.user r.now .collaborator a).toOption.getD a

/-- The call on `FirestorePieceRepository`. -/
def inCloud (s : PieceRepositories) : Except CloudFailure Unit × Client :=
  (r.call.inCloud platform r.user).exec (ClientOperation.interpret platform r.given)
    (r.place s.client)

/-- A piece that is paired idly drifts, until both sides stamp it. -/
def adriftAfter (s : PieceRepositories) : List String :=
  if r.pairsIdly s.pieces then r.call.pieceId :: s.adrift
  else if s.pieces.stamps (r.env platform) r.call.onDevice then
    s.adrift.filter fun pieceId => pieceId ≠ r.call.pieceId
  else s.adrift

def purgedAfter (s : PieceRepositories) : List String :=
  if (r.dropping s.pieces).isSome then r.call.pieceId :: s.purged else s.purged

/-- The device drops what belongs to a piece that is deleted, or to a collaborator who is taken off it;
in the cloud the layers and notes stay. -/
structure Purges (s : PieceRepositories) : Prop where
  device : ∀ q, (r.onAnnotations s).annotationsFor q =
    if q = r.call.pieceId then r.purging s.pieces (s.device.annotationsFor q)
    else s.device.annotationsFor q
  layers : ∀ q uid, (r.inCloud platform s).2.cloud.doc (.layers q uid) =
    s.client.cloud.doc (.layers q uid)
  notes : ∀ q noteId, (r.inCloud platform s).2.cloud.doc (.notes q noteId) =
    s.client.cloud.doc (.notes q noteId)

/-- The call ends the same way on both sides. -/
def SameOutcome (s : PieceRepositories) : Prop :=
  (r.onDevice platform zone s).1.mapError Failure.kind =
    (r.inCloud platform s).1.mapError CloudFailure.kind

end PieceRequest

namespace PieceRepositories

variable (platform : Platform) (zone : TimeZone)

/-- The call on both sides. -/
def step (s : PieceRepositories) (r : PieceRequest) : Option PieceRepositories :=
  some {
    pieces := (r.onDevice platform zone s).2
    device := r.onAnnotations s
    client := (r.inCloud platform s).2
    adrift := r.adriftAfter platform s
    purged := r.purgedAfter s }

/-- A piece as both sides show it: apart from the path of its base PDF, and from the time of one that
is adrift. -/
def shown (s : PieceRepositories) (piece : Piece) : Piece :=
  { piece with
    basePdfPath := ""
    updatedAt := if piece.id ∈ s.adrift then noon else piece.updatedAt }

/-- Both sides show every user the same pieces and, to the millisecond, the same watermarks; and the
same annotations of a piece, as long as none have been dropped. -/
structure ShowTheSame (s : PieceRepositories) : Prop where
  pieces : ∀ user, ∃ pieces, Firestore.watchPieces s.client user = some pieces ∧
    (pieces.map s.shown).Perm ((s.pieces.watchPieces user).map s.shown)
  reads : ∀ user, ∃ reads, s.pieces.watchReads user = some reads ∧ ∀ pieceId,
    (reads.get pieceId).map DateTime.toMillisecondPrecision =
      ((Firestore.watchReads s.client.cloud user).get pieceId).map DateTime.toMillisecondPrecision
  annotations : ∀ pieceId, (s.pieces.findPiece pieceId).isSome → pieceId ∉ s.purged →
    Duet.ShowTheSame pieceId (s.device, s.client.cloud)

/-- The watermark of a user on a piece, as the documents have it. -/
def mark (s : PieceRepositories) (user pieceId : String) : Option DateTime :=
  (s.client.cloud.doc (.reads pieceId user)).bind fun fields =>
    asDate (fields.read "lastOpenedAt")

/-- What the sides have in common: a document for each piece, up to the time of one that is adrift;
watermarks, stored in milliseconds on the device; and the annotations that have not been dropped. -/
structure Agrees (s : PieceRepositories) : Prop where
  distinct : (s.pieces.pieces.map (·.id)).Nodup
  collaborators : ∀ pieceId, ∀ piece ∈ s.pieces.findPiece pieceId, piece.Distinct
  docs : ∀ pieceId, ∃ t : DateTime, s.client.cloud.doc (.pieces pieceId) =
      ((s.pieces.findPiece pieceId).map (Piece.stampedAt t)).map pieceToFirestore ∧
    (pieceId ∉ s.adrift → ∀ piece ∈ s.pieces.findPiece pieceId, t = piece.updatedAt)
  opened : ∀ pieceId user fields, s.client.cloud.doc (.reads pieceId user) = some fields →
    fields.get "uid" = some (.string user)
  loaded : ∀ user, ∃ reads, s.pieces.loadReads user = some reads ∧ ∀ pieceId,
    reads.get pieceId = (s.mark user pieceId).map DateTime.toMillisecondPrecision
  listened : ∀ user, ∀ reads ∈ s.pieces.shownReads.get user, ∀ pieceId,
    (reads.get pieceId).map DateTime.toMillisecondPrecision =
      (s.mark user pieceId).map DateTime.toMillisecondPrecision
  annotations : ∀ pieceId ∉ s.purged, match s.pieces.findPiece pieceId with
    | some piece =>
      Mirrors pieceId piece.ownerId (s.device.annotationsFor pieceId) s.client.cloud
    | none => s.device.annotationsFor pieceId = .empty pieceId ∧
      (∀ uid, s.client.cloud.doc (.layers pieceId uid) = none) ∧
        ∀ noteId, s.client.cloud.doc (.notes pieceId noteId) = none

end PieceRepositories

/-! ## Watermarks -/

theorem toMillisecondPrecision_idem (t : DateTime) :
    t.toMillisecondPrecision.toMillisecondPrecision = t.toMillisecondPrecision :=
  toMillisecondPrecision_fromMillisecondsSinceEpoch
    (DateTime.fromMillisecondsSinceEpoch_millisecondsSinceEpoch t)

theorem map_toMillisecondPrecision_idem (t : Option DateTime) :
    (t.map DateTime.toMillisecondPrecision).map DateTime.toMillisecondPrecision =
      t.map DateTime.toMillisecondPrecision := by
  rw [Option.map_map]
  exact congrFun (congrArg Option.map (funext toMillisecondPrecision_idem)) t

namespace LocalPieces

variable {s : LocalPieces} {env : PieceEnv}

theorem exec_markOpened {reads : Assoc String DateTime}
    (hreads : s.loadReads env.currentUserId = some reads) (pieceId : String) :
    (markOpened env pieceId).exec s = (.ok (), { s with
      reads := s.reads.set env.currentUserId (readsToJson (reads.set pieceId env.now))
      shownReads := s.shownReads.set env.currentUserId (reads.set pieceId env.now) }) := by
  rw [markOpened, Effect.exec_get_bind, hreads]
  rfl

end LocalPieces

namespace Firestore

theorem exec_markOpened {platform : Platform} {given : Given} {client : Client}
    (user pieceId : String) :
    (markOpened user pieceId).exec (ClientOperation.interpret platform given) client =
      (.ok (), { client with
        cloud := client.cloud.store (.reads pieceId user)
          (some (marked (client.cloud.doc (.reads pieceId user)) user given.now)) }) := by
  have hcommit : client.cloud.commit [.merge (.reads pieceId user) (watermark user given.now)] =
      .ok (client.cloud.store (.reads pieceId user)
        (some (marked (client.cloud.doc (.reads pieceId user)) user given.now))) :=
    Cloud.commit_singleton.mpr ⟨_, rfl, rfl⟩
  have hexec : (do
      let now ← ask .now
      onFirestore (commit [.merge (.reads pieceId user)
        (Assoc.ofList [("uid", .string user), ("lastOpenedAt", toTimestamp now)])]) :
        ClientProgram Unit).exec (ClientOperation.interpret platform given) client =
      (.ok (), { client with
        cloud := client.cloud.store (.reads pieceId user)
          (some (marked (client.cloud.doc (.reads pieceId user)) user given.now)) }) := by
    refine (Fallible.exec_ask_bind ClientOperation.now _).trans ((exec_onFirestore _).trans ?_)
    rw [watermark] at hcommit
    rw [exec_commit, hcommit]
    rfl
  rw [markOpened, exec_guarding, hexec]

end Firestore

/-! ## Documents of pieces -/

theorem selects_pieceToFirestore (user pieceId : String) (piece : Piece) :
    (Query.piecesOf user).selects (.pieces pieceId) (pieceToFirestore piece) =
      piece.isParticipant user := by
  have hids : (pieceToFirestore piece).read "participantIds" =
      .array (piece.participantIds.map .string) := by
    simp [pieceToFirestore, Assoc.ofList, Fields.read_set]
  rw [Bool.eq_iff_iff, Piece.isParticipant_iff, Query.selects, hids]
  simp [arrayContains]

/-- What relates the sides depends on the slices and on the owner of the piece. -/
theorem Mirrors.congr {pieceId ownerId : String} {a : PieceAnnotations} {cloud cloud' : Cloud}
    (h : Mirrors pieceId ownerId a cloud)
    (hlayers : ∀ uid, cloud'.doc (.layers pieceId uid) = cloud.doc (.layers pieceId uid))
    (hnotes : ∀ id, cloud'.doc (.notes pieceId id) = cloud.doc (.notes pieceId id))
    (hpiece : ∃ fields, cloud'.doc (.pieces pieceId) = some fields ∧
      fields.read "ownerId" = .string ownerId) : Mirrors pieceId ownerId a cloud' where
  tidy := h.tidy
  layerDoc l hl := by simpa only [hlayers] using h.layerDoc l hl
  noLayerDoc uid huid := (hlayers uid).trans (h.noLayerDoc uid huid)
  noteDoc n hn := (hnotes n.id).trans (h.noteDoc n hn)
  noNoteDoc id hid := (hnotes id).trans (h.noNoteDoc id hid)
  piece := hpiece

theorem read_pieceToFirestore_ownerId (piece : Piece) :
    (pieceToFirestore piece).read "ownerId" = .string piece.ownerId := by
  simp [pieceToFirestore, Assoc.ofList, Fields.read_set]

/-! ## Stamps -/

namespace Piece

variable {piece : Piece} {userId : String} {name email : Option String} {now t : DateTime}

theorem ownerId_leftBy : (piece.leftBy userId now).ownerId = piece.ownerId := by
  unfold leftBy
  split_ifs <;> rfl

theorem ownerId_joinedBy : (piece.joinedBy userId name email now).ownerId = piece.ownerId := by
  unfold joinedBy
  split_ifs <;> rfl

theorem leftBy_stampedAt : (piece.stampedAt t).leftBy userId now =
    (piece.leftBy userId now).stampedAt (if piece.isCollaborator userId then now else t) := by
  have hin : (piece.stampedAt t).isCollaborator userId = piece.isCollaborator userId := rfl
  unfold leftBy
  rw [hin]
  split_ifs <;> rfl

theorem joinedBy_stampedAt : (piece.stampedAt t).joinedBy userId name email now =
    (piece.joinedBy userId name email now).stampedAt
      (if LocalPieces.isAdded piece userId name email then t else now) := by
  have hadded : LocalPieces.isAdded (piece.stampedAt t) userId name email =
      LocalPieces.isAdded piece userId name email := rfl
  unfold joinedBy
  rw [hadded]
  split_ifs <;> rfl

end Piece

namespace PieceRequest

variable (platform : Platform) (r : PieceRequest) (s : LocalPieces)

/-- The time of the piece in the cloud after a call, where it was `t`. -/
def stampAfter (t : DateTime) : DateTime :=
  bif r.pairsIdly s || s.stamps (r.env platform) r.call.onDevice then r.now else t

/-- The repositories make the same of a piece, up to its time. -/
theorem contractInCloud_stampedAt (t : DateTime) :
    r.call.contractInCloud r.user r.now (r.staged platform)
        ((s.findPiece r.call.pieceId).map (Piece.stampedAt t)) =
      (r.call.contract r.user r.now (r.staged platform) (s.findPiece r.call.pieceId)).map
        (Option.map (Piece.stampedAt (r.stampAfter platform s t))) := by
  obtain ⟨user, now, source, call⟩ := r
  cases call with
  | registerImportedPiece pieceId title ownerId sourcePath collaboratorId ownerName collaboratorName =>
    simp only [stampAfter, pairsIdly, LocalPieces.stamps, RepositoryCall.onDevice, RepositoryCall.pieceId, env]
    cases s.findPiece pieceId with
    | some piece => rfl
    | none =>
      simp only [RepositoryCall.contractInCloud, RepositoryCall.contract, Option.map_none]
      cases staged platform _ <;> rfl
  | markOpened pieceId =>
    simp only [stampAfter, pairsIdly, LocalPieces.stamps, RepositoryCall.onDevice, RepositoryCall.pieceId]
    rfl
  | renamePiece pieceId title =>
    simp only [stampAfter, pairsIdly, LocalPieces.stamps, RepositoryCall.onDevice, RepositoryCall.pieceId]
    cases s.findPiece pieceId <;> rfl
  | deletePiece pieceId =>
    simp only [stampAfter, pairsIdly, LocalPieces.stamps, RepositoryCall.onDevice, RepositoryCall.pieceId]
    cases s.findPiece pieceId with
    | none => rfl
    | some piece =>
      simp only [RepositoryCall.contractInCloud, RepositoryCall.contract, Option.map_some]
      by_cases howner : user = piece.ownerId
      · rw [if_pos howner]
        exact if_pos howner
      · rw [if_neg howner]
        exact if_neg howner
  | leavePiece pieceId =>
    simp only [stampAfter, pairsIdly, LocalPieces.stamps, RepositoryCall.onDevice, RepositoryCall.pieceId, env]
    cases s.findPiece pieceId with
    | none => rfl
    | some piece =>
      simp only [RepositoryCall.contractInCloud, RepositoryCall.contract, Option.map_some,
        Piece.leftBy_stampedAt]
      by_cases howner : user = piece.ownerId
      · rw [if_pos howner]
        exact if_pos howner
      · rw [if_neg howner]
        refine (if_neg howner).trans ?_
        simp only [Option.any_some, bne_iff_ne.mpr howner, Bool.true_and, Bool.false_or, cond_eq_ite]
        rfl
  | removeCollaborator pieceId userId =>
    simp only [stampAfter, pairsIdly, LocalPieces.stamps, RepositoryCall.onDevice, RepositoryCall.pieceId, env]
    cases s.findPiece pieceId with
    | none => rfl
    | some piece =>
      simp only [RepositoryCall.contractInCloud, RepositoryCall.contract, Option.map_some,
        Piece.leftBy_stampedAt]
      by_cases howner : user = piece.ownerId
      · rw [if_pos howner]
        refine (if_pos howner).trans ?_
        simp only [Option.any_some, beq_iff_eq.mpr howner, Bool.true_and, Bool.false_or, cond_eq_ite]
        rfl
      · rw [if_neg howner]
        exact if_neg howner
  | addCollaborator pieceId userId name email =>
    simp only [stampAfter, pairsIdly, LocalPieces.stamps, RepositoryCall.onDevice, RepositoryCall.pieceId]
    cases s.findPiece pieceId with
    | none => rfl
    | some piece =>
      simp only [RepositoryCall.contractInCloud, RepositoryCall.contract, Option.map_some,
        Piece.joinedBy_stampedAt, Option.any_some, Bool.false_or]
      cases LocalPieces.isAdded piece userId name email <;> rfl
  | pairCollaborator pieceId userId name email ownerName =>
    simp only [stampAfter, pairsIdly, LocalPieces.stamps, RepositoryCall.onDevice, RepositoryCall.pieceId]
    cases s.findPiece pieceId with
    | none => rfl
    | some piece =>
      have hbackfilled : LocalPieces.backfilled (piece.stampedAt t) ownerName =
          (LocalPieces.backfilled piece ownerName).stampedAt t := rfl
      simp only [RepositoryCall.contractInCloud, RepositoryCall.contract, Option.map_some, hbackfilled,
        Piece.joinedBy_stampedAt, Option.any_some, Bool.or_not_self]
      rfl

/-- The two sides have the same time of a piece after a call that pairs nobody idly, if they had it
before or the call stamps the piece. -/
theorem stampAfter_eq {t : DateTime} {after : Piece} (hidle : r.pairsIdly s = false)
    (hbefore : s.stamps (r.env platform) r.call.onDevice = false →
      ∀ piece ∈ s.findPiece r.call.pieceId, t = piece.updatedAt)
    (h : r.call.contract r.user r.now (r.staged platform) (s.findPiece r.call.pieceId) =
      .ok (some after)) : r.stampAfter platform s t = after.updatedAt := by
  cases hpiece : s.findPiece r.call.pieceId with
  | none =>
    rw [hpiece] at h
    obtain ⟨user, now, source, call⟩ := r
    cases call with
    | registerImportedPiece pieceId =>
      have hnone : s.findPiece pieceId = none := hpiece
      simp only [RepositoryCall.contract] at h
      cases hstaged : staged platform _ with
      | none =>
        rw [hstaged] at h
        cases h
      | some staged =>
        rw [hstaged] at h
        obtain rfl := Option.some.inj (Except.ok.inj h)
        simp only [stampAfter, LocalPieces.stamps, RepositoryCall.onDevice, env, hnone, hstaged]
        exact congrArg (cond · now t) (Bool.or_true _)
    | _ => cases h
  | some piece =>
    -- at the time that the piece has on the device, the contract of the cloud is the contract itself
    have hsame : r.stampAfter platform s t = r.stampAfter platform s piece.updatedAt := by
      unfold stampAfter
      cases hstamps : s.stamps (r.env platform) r.call.onDevice with
      | true => rw [Bool.or_true]; rfl
      | false => rw [hbefore hstamps piece hpiece]
    have hcloud := r.contractInCloud_stampedAt platform s piece.updatedAt
    rw [h, hpiece] at hcloud
    rw [hpiece] at h
    rw [hsame]
    obtain ⟨user, now, source, call⟩ := r
    cases call with
    | pairCollaborator pieceId collaboratorId name email ownerName =>
      have hpiece : s.findPiece pieceId = some piece := hpiece
      have hadded : LocalPieces.isAdded piece collaboratorId name email = false := by
        simpa [pairsIdly, hpiece] using hidle
      have hjoined : LocalPieces.isAdded (LocalPieces.backfilled piece ownerName) collaboratorId name
        email = false := hadded
      obtain rfl := Option.some.inj (Except.ok.inj h)
      simp only [stampAfter, LocalPieces.stamps, RepositoryCall.onDevice, hpiece, Option.any_some, hadded,
        Piece.joinedBy, hjoined]
      exact congrArg (cond · now piece.updatedAt) (Bool.or_true _)
    | _ =>
      have hstamped := Option.some.inj (Except.ok.inj (h.symm.trans hcloud))
      exact (congrArg Piece.updatedAt hstamped).symm

/-! ### Annotations -/

theorem dropping_cases {call : AnnotationCall} (h : r.dropping s = some call) :
    call = .clearPiece ∨ ∃ userId, call = .removeAuthorSlice userId := by
  unfold dropping at h
  obtain ⟨piece, -, h⟩ := Option.bind_eq_some_iff.mp h
  split at h
  · split_ifs at h
    exact .inl (Option.some.inj h).symm
  · split_ifs at h
    exact .inr ⟨_, (Option.some.inj h).symm⟩
  · split_ifs at h
    exact .inr ⟨_, (Option.some.inj h).symm⟩
  · cases h

/-- What a call drops is of its own piece. -/
theorem annotationsFor_onAnnotations (s : PieceRepositories) (q : String) :
    (r.onAnnotations s).annotationsFor q =
      if q = r.call.pieceId then r.purging s.pieces (s.device.annotationsFor q)
      else s.device.annotationsFor q := by
  unfold onAnnotations purging
  cases hdropping : r.dropping s.pieces with
  | none =>
    split_ifs <;> rfl
  | some call =>
    have hperform := exec_perform (.quiet r.user r.now) r.call.pieceId call s.device rfl
    have hwritten : ∃ a, ∀ role, call.written r.call.pieceId r.user r.now role
        (s.device.annotationsFor r.call.pieceId) = .ok a := by
      obtain rfl | ⟨userId, rfl⟩ := r.dropping_cases s.pieces hdropping
      · exact ⟨_, fun _ => rfl⟩
      · exact ⟨_, fun _ => rfl⟩
    obtain ⟨a, hwritten⟩ := hwritten
    rw [show call.written r.call.pieceId (Env.quiet r.user r.now).currentUserId
      ((Env.quiet r.user r.now).clock .persistAnnotations) _ _ = .ok a from hwritten _] at hperform
    dsimp only at hperform ⊢
    rw [hperform]
    by_cases hq : q = r.call.pieceId
    · rw [if_pos hq, hq, Device.annotationsFor_put, hwritten]
      rfl
    · rw [if_neg hq, Device.annotationsFor_put_of_ne hq]

/-- A piece keeps its owner for as long as it is there; with a piece its annotations are dropped. -/
theorem owner_contract {piece : Piece} {after : Option Piece}
    (hpiece : s.findPiece r.call.pieceId = some piece) (hkept : r.dropping s = none)
    (h : r.call.contract r.user r.now (r.staged platform) (some piece) = .ok after) :
    after.map (·.ownerId) = some piece.ownerId := by
  obtain ⟨user, now, source, call⟩ := r
  cases call with
  | registerImportedPiece => cases h
  | deletePiece pieceId =>
    have hpiece : s.findPiece pieceId = some piece := hpiece
    simp only [dropping, RepositoryCall.pieceId, hpiece, Option.bind_some] at hkept
    simp only [RepositoryCall.contract] at h
    split_ifs at h with howner
    rw [if_pos howner] at hkept
    cases hkept
  | leavePiece pieceId =>
    simp only [RepositoryCall.contract] at h
    split_ifs at h with howner
    obtain rfl := Except.ok.inj h
    exact congrArg some Piece.ownerId_leftBy
  | removeCollaborator pieceId userId =>
    simp only [RepositoryCall.contract] at h
    split_ifs at h with howner
    obtain rfl := Except.ok.inj h
    exact congrArg some Piece.ownerId_leftBy
  | addCollaborator | pairCollaborator =>
    obtain rfl := Except.ok.inj h
    exact congrArg some Piece.ownerId_joinedBy
  | renamePiece | markOpened =>
    obtain rfl := Except.ok.inj h
    rfl

/-- A call that fails stamps nothing. -/
theorem stamps_of_error {k : FailureKind}
    (h : r.call.contract r.user r.now (r.staged platform) (s.findPiece r.call.pieceId) = .error k) :
    s.stamps (r.env platform) r.call.onDevice = false := by
  obtain ⟨user, now, source, call⟩ := r
  cases call with
  | markOpened | deletePiece => rfl
  | registerImportedPiece pieceId =>
    simp only [LocalPieces.stamps, RepositoryCall.onDevice, RepositoryCall.pieceId, env] at h ⊢
    cases hpiece : s.findPiece pieceId with
    | some piece => rfl
    | none =>
      rw [hpiece] at h
      cases hstaged : staged platform _ with
      | none => rfl
      | some staged =>
        rw [hstaged] at h
        cases h
  | leavePiece pieceId =>
    simp only [LocalPieces.stamps, RepositoryCall.onDevice, RepositoryCall.pieceId, env] at h ⊢
    cases hpiece : s.findPiece pieceId with
    | none => rfl
    | some piece =>
      simp only [hpiece, RepositoryCall.contract] at h
      split_ifs at h with howner
      simp [howner]
  | removeCollaborator pieceId userId =>
    simp only [LocalPieces.stamps, RepositoryCall.onDevice, RepositoryCall.pieceId, env] at h ⊢
    cases hpiece : s.findPiece pieceId with
    | none => rfl
    | some piece =>
      simp only [hpiece, RepositoryCall.contract] at h
      split_ifs at h with howner
      simp [howner]
  | renamePiece pieceId | addCollaborator pieceId | pairCollaborator pieceId =>
    simp only [LocalPieces.stamps, RepositoryCall.onDevice, RepositoryCall.pieceId] at h ⊢
    cases hpiece : s.findPiece pieceId with
    | none => rfl
    | some piece =>
      rw [hpiece] at h
      cases h

theorem stagedBy_place (client : Client) :
    r.call.stagedBy platform (r.place client) = r.staged platform := by
  unfold RepositoryCall.stagedBy place staged
  cases r.source with
  | none => simp
  | some content => simp

theorem toOption_copied : (r.env platform).copied.toOption = r.staged platform := by
  unfold env
  cases r.staged platform <;> rfl

section

variable {platform : Platform} {r : PieceRequest} {s : PieceRepositories} {q : String}

/-- A call has to do with its own piece. -/
theorem not_mem_adrift (hne : q ≠ r.call.pieceId) (hq : q ∉ r.adriftAfter platform s) :
    q ∉ s.adrift := by
  intro hin
  refine hq ?_
  unfold adriftAfter
  split_ifs
  · exact List.mem_cons_of_mem _ hin
  · exact List.mem_filter.mpr ⟨hin, by simpa using hne⟩
  · exact hin

theorem not_mem_adriftAfter (h : r.call.pieceId ∉ r.adriftAfter platform s) :
    r.pairsIdly s.pieces = false ∧
      (s.pieces.stamps (r.env platform) r.call.onDevice = false → r.call.pieceId ∉ s.adrift) := by
  unfold adriftAfter at h
  split_ifs at h with hidle hstamps
  · exact absurd List.mem_cons_self h
  · exact ⟨by simpa using hidle, fun hnot => absurd hstamps (by simp [hnot])⟩
  · exact ⟨by simpa using hidle, fun _ => h⟩

theorem dropping_of_not_purged (h : r.call.pieceId ∉ r.purgedAfter s) :
    r.dropping s.pieces = none := by
  unfold purgedAfter at h
  split_ifs at h with hdropping
  · exact absurd List.mem_cons_self h
  · simpa using hdropping

theorem annotationsFor_of_not_purged (hq : q ∉ r.purgedAfter s) :
    q ∉ s.purged ∧ (r.onAnnotations s).annotationsFor q = s.device.annotationsFor q := by
  rw [r.annotationsFor_onAnnotations]
  unfold purgedAfter at hq
  cases hdropping : r.dropping s.pieces with
  | none =>
    rw [hdropping] at hq
    simp only [purging, hdropping, ite_self]
    exact ⟨hq, trivial⟩
  | some call =>
    rw [hdropping] at hq
    obtain ⟨hne, hkept⟩ := not_or.mp (List.mem_cons.not.mp hq)
    exact ⟨hkept, if_neg hne⟩

end

end PieceRequest

namespace PieceRepositories

variable {s : PieceRepositories} {platform : Platform} {zone : TimeZone}

/-! ## What both sides show -/

theorem mem_pieces_iff (h : s.Agrees) {piece : Piece} :
    piece ∈ s.pieces.pieces ↔ s.pieces.findPiece piece.id = some piece := by
  constructor
  · intro hmem
    cases hfind : s.pieces.findPiece piece.id with
    | none => exact absurd (beq_self_eq_true piece.id) (by simpa using List.find?_eq_none.mp hfind piece hmem)
    | some other =>
      have hid := LocalPieces.id_of_findPiece hfind
      rw [List.inj_on_of_nodup_map h.distinct (List.mem_of_find?_eq_some hfind) hmem hid]
  · exact List.mem_of_find?_eq_some

/-- The documents of the pieces that the user takes part in. -/
theorem Agrees.list_perm (h : s.Agrees) (user : String) : ∃ stamp : String → DateTime,
    (∀ pieceId ∉ s.adrift, ∀ piece ∈ s.pieces.findPiece pieceId, stamp pieceId = piece.updatedAt) ∧
    (s.client.cloud.list (.piecesOf user)).Perm
      ((s.pieces.pieces.filter (·.isParticipant user)).map fun piece =>
        (.pieces piece.id, pieceToFirestore (piece.stampedAt (stamp piece.id)))) := by
  choose stamp hdoc hstamp using h.docs
  refine ⟨stamp, hstamp, (List.perm_ext_iff_of_nodup s.client.cloud.nodup_list ?_).mpr
    fun entry => ?_⟩
  · refine List.Nodup.of_map Prod.fst ?_
    rw [List.map_map]
    have hids : ((s.pieces.pieces.filter (·.isParticipant user)).map (·.id)).Nodup :=
      h.distinct.sublist (List.filter_sublist.map _)
    have hpaths := hids.map (f := DocPath.pieces) fun _ _ heq => DocPath.pieces.inj heq
    rwa [List.map_map] at hpaths
  · obtain ⟨path, fields⟩ := entry
    rw [Cloud.mem_list, List.mem_map]
    constructor
    · rintro ⟨hfields, hselects⟩
      cases path with
      | pieces pieceId =>
        rw [hdoc, Option.map_map, Option.map_eq_some_iff] at hfields
        obtain ⟨piece, hpiece, rfl⟩ := hfields
        dsimp only [Function.comp_apply] at hselects ⊢
        obtain rfl := LocalPieces.id_of_findPiece hpiece
        rw [selects_pieceToFirestore] at hselects
        exact ⟨piece, List.mem_filter.mpr ⟨(mem_pieces_iff h).mpr hpiece, hselects⟩, rfl⟩
      | _ => cases hselects
    · rintro ⟨piece, hpiece, heq⟩
      obtain ⟨rfl, rfl⟩ := Prod.mk.inj heq
      obtain ⟨hmem, hparticipant⟩ := List.mem_filter.mp hpiece
      refine ⟨?_, (selects_pieceToFirestore _ _ _).trans hparticipant⟩
      rw [hdoc, (mem_pieces_iff h).mp hmem, Option.map_some, Option.map_some]

theorem Agrees.reads (h : s.Agrees) (user : String) :
    ∃ reads, s.pieces.watchReads user = some reads ∧ ∀ pieceId,
      (reads.get pieceId).map DateTime.toMillisecondPrecision =
        ((Firestore.watchReads s.client.cloud user).get pieceId).map
          DateTime.toMillisecondPrecision := by
  have hmark : ∀ pieceId, (Firestore.watchReads s.client.cloud user).get pieceId =
      s.mark user pieceId := fun pieceId => SharedPiece.get_watchReads (h.opened pieceId)
  simp only [hmark]
  unfold LocalPieces.watchReads
  cases hshown : s.pieces.shownReads.get user with
  | some reads => exact ⟨reads, rfl, h.listened user reads hshown⟩
  | none =>
    obtain ⟨reads, hloaded, hreads⟩ := h.loaded user
    dsimp only
    refine ⟨reads, hloaded, fun pieceId => ?_⟩
    rw [hreads, map_toMillisecondPrecision_idem]

theorem Agrees.pieces (h : s.Agrees) (user : String) :
    ∃ pieces, Firestore.watchPieces s.client user = some pieces ∧
      (pieces.map s.shown).Perm ((s.pieces.watchPieces user).map s.shown) := by
  obtain ⟨stamp, hstamp, hperm⟩ := h.list_perm user
  let read : Piece → Piece := fun piece => { piece with
    basePdfPath := (s.client.basePaths.get piece.id).getD ""
    updatedAt := stamp piece.id }
  have hstamped : ∀ entry ∈ s.client.cloud.list (.piecesOf user),
      (entry.2.get "updatedAt").isSome = true := by
    intro entry hentry
    obtain ⟨piece, -, rfl⟩ := List.mem_map.mp (hperm.mem_iff.mp hentry)
    simp [pieceToFirestore, Assoc.ofList]
  have hread : ∀ piece : Piece, pieceFromFirestore piece.id
      (pieceToFirestore (piece.stampedAt (stamp piece.id)))
      ((s.client.basePaths.get piece.id).getD "") = some (read piece) := fun piece =>
    pieceFromFirestore_pieceToFirestore (piece.stampedAt (stamp piece.id)) _
  have hdocs : ((s.pieces.pieces.filter (·.isParticipant user)).map fun piece =>
      (DocPath.pieces piece.id, pieceToFirestore (piece.stampedAt (stamp piece.id)))).mapM
        (fun entry => pieceFromFirestore entry.1.id entry.2
          ((s.client.basePaths.get entry.1.id).getD "")) =
      some ((s.pieces.pieces.filter (·.isParticipant user)).map read) :=
    mapM_map_eq_some (fun piece => by dsimp only [DocPath.id]; exact hread piece) _
  obtain ⟨pieces, hpieces, hsame⟩ := exists_mapM_of_perm hperm hdocs
  have hshown : ∀ piece ∈ s.pieces.pieces, s.shown (read piece) = s.shown piece := by
    intro piece hpiece
    simp only [shown, read]
    by_cases hadrift : piece.id ∈ s.adrift
    · simp only [hadrift, if_true]
    · simp only [hadrift, if_false, hstamp _ hadrift piece ((mem_pieces_iff h).mp hpiece)]
  refine ⟨pieces.insertionSort Firestore.newestFirst, ?_, ?_⟩
  · rw [Firestore.watchPieces, List.filter_eq_self.mpr hstamped]
    exact congrArg (Option.map _) hpieces
  · refine ((List.perm_insertionSort _ pieces).map s.shown).trans ((hsame.map s.shown).trans ?_)
    rw [List.map_map]
    refine (List.Perm.of_eq (List.map_congr_left fun piece hpiece => ?_)).trans
      ((List.perm_insertionSort _ _).map s.shown).symm
    exact hshown piece (List.mem_of_mem_filter hpiece)

theorem Agrees.showTheSame (h : s.Agrees) : s.ShowTheSame where
  pieces := h.pieces
  reads := h.reads
  annotations pieceId hfound hkept := by
    obtain ⟨piece, hpiece⟩ := Option.isSome_iff_exists.mp hfound
    have hmirrors := h.annotations pieceId hkept
    rw [hpiece] at hmirrors
    dsimp only at hmirrors
    exact Mirrors.showTheSame (s := (s.device, s.client.cloud)) hmirrors

/-! ## What a call keeps -/

theorem mark_congr {t : PieceRepositories} {user pieceId : String}
    (h : t.client.cloud.doc (.reads pieceId user) = s.client.cloud.doc (.reads pieceId user)) :
    t.mark user pieceId = s.mark user pieceId := by
  rw [mark, mark, h]

/-- A piece of which both sides keep everything is mirrored as before. -/
theorem Agrees.annotations_of_same (h : s.Agrees) {t : PieceRepositories} {q : String}
    (hkept : q ∉ s.purged) (hfound : t.pieces.findPiece q = s.pieces.findPiece q)
    (hdevice : t.device.annotationsFor q = s.device.annotationsFor q)
    (hpiece : t.client.cloud.doc (.pieces q) = s.client.cloud.doc (.pieces q))
    (hlayers : ∀ uid, t.client.cloud.doc (.layers q uid) = s.client.cloud.doc (.layers q uid))
    (hnotes : ∀ id, t.client.cloud.doc (.notes q id) = s.client.cloud.doc (.notes q id)) :
    match t.pieces.findPiece q with
    | some piece => Mirrors q piece.ownerId (t.device.annotationsFor q) t.client.cloud
    | none => t.device.annotationsFor q = .empty q ∧
      (∀ uid, t.client.cloud.doc (.layers q uid) = none) ∧
        ∀ noteId, t.client.cloud.doc (.notes q noteId) = none := by
  have hbefore := h.annotations q hkept
  rw [hfound, hdevice]
  cases hfind : s.pieces.findPiece q with
  | some piece =>
    rw [hfind] at hbefore
    dsimp only at hbefore
    refine hbefore.congr hlayers hnotes ?_
    rw [hpiece]
    exact hbefore.piece
  | none =>
    rw [hfind] at hbefore
    simpa only [hlayers, hnotes] using hbefore

/-- A call that makes the same of one piece on both sides, up to a stamp, and leaves the watermarks. -/
theorem Agrees.turns (h : s.Agrees) {t : PieceRepositories} {pieceId : String}
    {after : Option Piece} {stamp : DateTime} (hpieces : s.pieces.Turns t.pieces pieceId after)
    (hclient : s.client.Turns t.client pieceId
      (after.map (Piece.stampedAt stamp)))
    (hafter : ∀ piece ∈ after, piece.Distinct)
    (hadrift : ∀ q ≠ pieceId, q ∉ t.adrift → q ∉ s.adrift)
    (hstamp : pieceId ∉ t.adrift → ∀ piece ∈ after, stamp = piece.updatedAt)
    (hpurged : ∀ q ∉ t.purged, q ∉ s.purged ∧
      t.device.annotationsFor q = s.device.annotationsFor q)
    (howner : pieceId ∉ t.purged → ∀ piece ∈ s.pieces.findPiece pieceId,
      after.map (·.ownerId) = some piece.ownerId) : t.Agrees where
  distinct := hpieces.distinct h.distinct
  collaborators q := by
    by_cases hq : q = pieceId
    · rw [hq, hpieces.found]
      exact hafter
    · rw [hpieces.others q hq]
      exact h.collaborators q
  docs q := by
    by_cases hq : q = pieceId
    · rw [hq, hpieces.found, hclient.found]
      exact ⟨stamp, rfl, hstamp⟩
    · obtain ⟨t, hdoc, ht⟩ := h.docs q
      rw [hpieces.others q hq, hclient.others _ (by simpa using hq)]
      exact ⟨t, hdoc, fun hkept => ht (hadrift q hq hkept)⟩
  opened q user fields hfields := by
    rw [hclient.others (.reads q user) (by simp)] at hfields
    exact h.opened q user fields hfields
  loaded user := by
    have hmark : ∀ q, t.mark user q = s.mark user q := fun q => mark_congr (hclient.others _ (by simp))
    have hloaded : t.pieces.loadReads user = s.pieces.loadReads user := by
      unfold LocalPieces.loadReads
      rw [hpieces.reads.1]
    simpa only [hmark, hloaded] using h.loaded user
  listened user := by
    have hmark : ∀ q, t.mark user q = s.mark user q := fun q => mark_congr (hclient.others _ (by simp))
    simpa only [hmark, hpieces.reads.2] using h.listened user
  annotations q hq := by
    obtain ⟨hkept, hsame⟩ := hpurged q hq
    have hlayers : ∀ uid, t.client.cloud.doc (.layers q uid) = s.client.cloud.doc (.layers q uid) :=
      fun uid => hclient.others _ (by simp)
    have hnotes : ∀ id, t.client.cloud.doc (.notes q id) = s.client.cloud.doc (.notes q id) :=
      fun id => hclient.others _ (by simp)
    by_cases hqid : q = pieceId
    · subst hqid
      have hbefore := h.annotations q hkept
      rw [hpieces.found, hsame]
      cases hpiece : s.pieces.findPiece q with
      | some piece =>
        obtain ⟨p, rfl, hp⟩ := Option.map_eq_some_iff.mp (howner hq piece hpiece)
        rw [hpiece] at hbefore
        dsimp only at hbefore ⊢
        rw [hp]
        exact hbefore.congr hlayers hnotes
          ⟨_, hclient.found, hp ▸ read_pieceToFirestore_ownerId (p.stampedAt stamp)⟩
      | none =>
        rw [hpiece] at hbefore
        obtain ⟨hempty, hnoLayers, hnoNotes⟩ := hbefore
        simp only [← hlayers, ← hnotes] at hnoLayers hnoNotes
        cases after with
        | none => exact ⟨hempty, hnoLayers, hnoNotes⟩
        | some p =>
          dsimp only
          rw [hempty]
          exact ⟨.empty q p.ownerId, by simp [PieceAnnotations.empty], fun uid _ => hnoLayers uid,
            by simp [PieceAnnotations.empty], fun id _ => hnoNotes id, _, hclient.found,
            read_pieceToFirestore_ownerId (p.stampedAt stamp)⟩
    · exact h.annotations_of_same hkept (hpieces.others q hqid) hsame
        (hclient.others _ (by simpa using hqid)) hlayers hnotes

/-- A call other than opening a piece ends the same way on both sides, and they go on agreeing. -/
theorem Agrees.change (h : s.Agrees) {t : PieceRepositories} {r : PieceRequest}
    (hmark : ∀ q, r.call ≠ .markOpened q) (hstep : step platform zone s r = some t) :
    (r.SameOutcome platform zone s ∧ r.Purges platform s) ∧ t.Agrees := by
  obtain rfl := Option.some.inj hstep
  obtain ⟨time, hdoc, htime⟩ := h.docs r.call.pieceId
  have hcopied : ∀ e, (r.env platform).copied = .error e → e.kind = .unavailable := by
    intro e he
    simp only [PieceRequest.env] at he
    split at he <;> cases he
    rfl
  have hpiece : ∀ piece ∈ (s.pieces.findPiece r.call.pieceId).map (Piece.stampedAt time),
      piece.id = r.call.pieceId ∧ piece.Distinct := by
    intro piece hpiece
    obtain ⟨p, hp, rfl⟩ := Option.map_eq_some_iff.mp hpiece
    exact ⟨(LocalPieces.id_of_findPiece hp :), h.collaborators _ p hp⟩
  have hlocal : s.pieces.KeepsTo r.call.pieceId (r.call.contract r.user r.now
      (r.env platform).copied.toOption (s.pieces.findPiece r.call.pieceId))
      (r.onDevice platform zone s) := LocalPieces.exec_program r.call hmark hcopied rfl
  have hcloud : (r.place s.client).KeepsTo r.call.pieceId
      ((s.pieces.findPiece r.call.pieceId).map (Piece.stampedAt time))
      (r.call.contractInCloud r.user r.now (r.call.stagedBy platform (r.place s.client))
        ((s.pieces.findPiece r.call.pieceId).map (Piece.stampedAt time)))
      (r.inCloud platform s) :=
    Firestore.exec_program r.call r.user hmark hpiece hdoc
  rw [r.toOption_copied] at hlocal
  rw [r.stagedBy_place, r.contractInCloud_stampedAt] at hcloud
  obtain ⟨hends, hpieces⟩ := hlocal
  obtain ⟨hendsCloud, hclient⟩ := hcloud
  have hpurges : r.Purges platform s := ⟨r.annotationsFor_onAnnotations s,
    fun q uid => hclient.others _ (by simp), fun q noteId => hclient.others _ (by simp)⟩
  cases hcontract : r.call.contract r.user r.now (r.staged platform)
      (s.pieces.findPiece r.call.pieceId) with
  | error k =>
    rw [hcontract] at hends hendsCloud hpieces hclient
    refine ⟨⟨hends.trans hendsCloud.symm, hpurges⟩, h.turns hpieces ⟨hclient.found, hclient.others⟩
      (fun p hp => h.collaborators _ p hp) (fun q hne => r.not_mem_adrift hne) (fun hkept => ?_)
      (fun q => r.annotationsFor_of_not_purged) fun _ piece hpiece => by rw [hpiece]; rfl⟩
    obtain ⟨-, hadrift⟩ := r.not_mem_adriftAfter hkept
    exact htime (hadrift (r.stamps_of_error platform s.pieces hcontract))
  | ok after =>
    have hafter := RepositoryCall.keeps_contract hcontract fun piece hpiece =>
      ⟨LocalPieces.id_of_findPiece hpiece, h.collaborators _ piece hpiece⟩
    rw [hcontract] at hends hendsCloud hpieces hclient
    refine ⟨⟨hends.trans hendsCloud.symm, hpurges⟩, h.turns hpieces ⟨hclient.found, hclient.others⟩
      (fun p hp => (hafter p hp).2) (fun q hne => r.not_mem_adrift hne) (fun hkept p hp => ?_)
      (fun q => r.annotationsFor_of_not_purged) fun hkept piece hpiece => ?_⟩
    · obtain ⟨hidle, hadrift⟩ := r.not_mem_adriftAfter hkept
      obtain rfl : after = some p := hp
      exact r.stampAfter_eq platform s.pieces hidle (fun hstamps => htime (hadrift hstamps)) hcontract
    · exact r.owner_contract platform s.pieces hpiece (r.dropping_of_not_purged hkept)
        (hpiece ▸ hcontract)

theorem mark_of_marked {t : PieceRepositories} {user q : String} {now : DateTime}
    (hcloud : t.client.cloud = s.client.cloud.store (.reads q user)
      (some (marked (s.client.cloud.doc (.reads q user)) user now))) (u p : String) :
    t.mark u p = if u = user ∧ p = q then some now else s.mark u p := by
  split_ifs with hup
  · obtain ⟨rfl, rfl⟩ := hup
    rw [mark, hcloud, Cloud.doc_store_self, Option.bind_some, Fields.read, get_lastOpenedAt_marked]
    exact asDate_toTimestamp now
  · refine mark_congr ?_
    rw [hcloud]
    exact Cloud.doc_store_of_ne _ (fun heq => hup (DocPath.reads.inj heq).symm) _

/-- Opening a piece sets one watermark on both sides. -/
theorem Agrees.opens (h : s.Agrees) {t : PieceRepositories} {user q : String} {now : DateTime}
    {reads : Assoc String DateTime} (hreads : s.pieces.loadReads user = some reads)
    (hpieces : t.pieces = { s.pieces with
      reads := s.pieces.reads.set user (readsToJson (reads.set q now))
      shownReads := s.pieces.shownReads.set user (reads.set q now) })
    (hdevice : t.device = s.device)
    (hcloud : t.client.cloud = s.client.cloud.store (.reads q user)
      (some (marked (s.client.cloud.doc (.reads q user)) user now)))
    (hadrift : t.adrift = s.adrift) (hpurged : t.purged = s.purged) : t.Agrees := by
  have hfind : ∀ p, t.pieces.findPiece p = s.pieces.findPiece p := by
    intro p
    rw [hpieces]
    rfl
  have hother : ∀ path, path ≠ .reads q user → t.client.cloud.doc path = s.client.cloud.doc path := by
    intro path hpath
    rw [hcloud, Cloud.doc_store_of_ne _ hpath]
  have hmark := mark_of_marked hcloud
  have hset : ∀ p, (reads.set q now).get p =
      if p = q then some now else (s.mark user p).map DateTime.toMillisecondPrecision := by
    obtain ⟨reads', hreads', hloaded⟩ := h.loaded user
    obtain rfl := Option.some.inj (hreads'.symm.trans hreads)
    intro p
    rw [Assoc.get_set, hloaded]
  have hprecise : ∀ p, ((reads.set q now).get p).map DateTime.toMillisecondPrecision =
      (t.mark user p).map DateTime.toMillisecondPrecision := by
    intro p
    rw [hset, hmark]
    by_cases hp : p = q
    · rw [if_pos hp, if_pos ⟨rfl, hp⟩]
    · rw [if_neg hp, if_neg (fun hup => hp hup.2), map_toMillisecondPrecision_idem]
  refine ⟨?_, fun p => ?_, fun p => ?_, fun p u fields hfields => ?_, fun u => ?_, fun u shown hshown => ?_,
    fun p hp => ?_⟩
  · rw [hpieces]
    exact h.distinct
  · rw [hfind]
    exact h.collaborators p
  · rw [hfind, hother _ (by simp), hadrift]
    exact h.docs p
  · rw [hcloud, Cloud.doc_store] at hfields
    split_ifs at hfields with hpath
    · obtain ⟨-, rfl⟩ := DocPath.reads.inj hpath
      obtain rfl := Option.some.inj hfields
      exact get_uid_marked _ _ _
    · exact h.opened p u fields hfields
  · by_cases hu : u = user
    · subst hu
      refine ⟨(reads.set q now).map fun entry => (entry.1, entry.2.toMillisecondPrecision), ?_,
        fun p => ?_⟩
      · unfold LocalPieces.loadReads
        rw [hpieces]
        dsimp only
        rw [Assoc.get_set_self]
        exact readsFromJson_readsToJson _
      · rw [Assoc.get_map, hprecise]
    · obtain ⟨loaded, hloaded, hmarks⟩ := h.loaded u
      refine ⟨loaded, ?_, fun p => ?_⟩
      · unfold LocalPieces.loadReads at hloaded ⊢
        rw [hpieces]
        dsimp only
        rwa [Assoc.get_set_of_ne _ hu]
      · rw [hmarks, hmark, if_neg (fun hup => hu hup.1)]
  · rw [hpieces] at hshown
    change (s.pieces.shownReads.set user (reads.set q now)).get u = some shown at hshown
    rw [Assoc.get_set] at hshown
    split_ifs at hshown with hu
    · obtain rfl := Option.some.inj hshown
      subst hu
      exact hprecise
    · intro p
      rw [hmark, if_neg (fun hup => hu hup.1)]
      exact h.listened u shown hshown p
  · rw [hpurged] at hp
    exact h.annotations_of_same hp (hfind p) (by rw [hdevice]) (hother _ (by simp))
      (fun _ => hother _ (by simp)) fun _ => hother _ (by simp)

/-- A call ends the same way on both sides, and they go on agreeing. -/
theorem Agrees.step (h : s.Agrees) {t : PieceRepositories} {r : PieceRequest}
    (hstep : step platform zone s r = some t) :
    (r.SameOutcome platform zone s ∧ r.Purges platform s) ∧ t.Agrees := by
  by_cases hmark : ∃ q, r.call = .markOpened q
  · obtain ⟨user, now, source, call⟩ := r
    obtain ⟨q, rfl⟩ := hmark
    obtain ⟨reads, hreads, -⟩ := h.loaded user
    obtain rfl := Option.some.inj hstep
    have hdropping : PieceRequest.dropping ⟨user, now, source, .markOpened q⟩ s.pieces = none := by
      unfold PieceRequest.dropping
      cases s.pieces.findPiece _ <;> rfl
    have hlocal : PieceRequest.onDevice platform zone ⟨user, now, source, .markOpened q⟩ s =
        (.ok (), { s.pieces with
          reads := s.pieces.reads.set user (readsToJson (reads.set q now))
          shownReads := s.pieces.shownReads.set user (reads.set q now) }) :=
      LocalPieces.exec_markOpened hreads q
    have hcloud : PieceRequest.inCloud platform ⟨user, now, source, .markOpened q⟩ s = _ :=
      Firestore.exec_markOpened user q
    have hdocs : ∀ path, path ≠ .reads q user →
        (PieceRequest.inCloud platform ⟨user, now, source, .markOpened q⟩ s).2.cloud.doc path =
          s.client.cloud.doc path := by
      intro path hpath
      rw [hcloud]
      exact Cloud.doc_store_of_ne _ hpath _
    refine ⟨⟨?_, PieceRequest.annotationsFor_onAnnotations _ s, fun _ _ => hdocs _ (by simp),
      fun _ _ => hdocs _ (by simp)⟩, h.opens hreads (congrArg Prod.snd hlocal) ?_
      (congrArg (fun run => run.2.cloud) hcloud) rfl ?_⟩
    · rw [PieceRequest.SameOutcome, hlocal, hcloud]
      rfl
    · dsimp only
      rw [PieceRequest.onAnnotations, hdropping]
    · dsimp only
      rw [PieceRequest.purgedAfter, hdropping]
      rfl
  · exact h.change (fun q hq => hmark ⟨q, hq⟩) hstep

/-- Over any sequence of calls, both repositories end every call the same way and show the same after
it. -/
theorem pieceRepositories_agree {requests : List PieceRequest} (hs : s.Agrees) :
    EachStep (step platform zone)
        (fun s r => r.SameOutcome platform zone s ∧ r.Purges platform s) s requests ∧
      Always (step platform zone) ShowTheSame s requests := by
  have hall : EachStep (step platform zone) (fun _ _ => True) s requests :=
    EachStep.of_forall fun _ _ _ => trivial
  exact ⟨EachStep.of_invariant (fun s r hs _ => ⟨(hs.step rfl).1, fun t ht => (hs.step ht).2⟩) hs hall,
    Always.of_invariant (fun s r t hs _ ht => (hs.step ht).2) (fun _ h => h.showTheSame) hs hall⟩

/-! ### A piece that bob leaves -/

/-- What bob has drawn on ann's sonata. -/
def bobsLayer : InkLayer := ⟨"bob", .collaborator, [⟨"s1", "bob", 0, "red", [⟨1 / 2, 1 / 2⟩]⟩], none⟩

/-- The sonata that ann has shared with bob. -/
def bobsSonata : Piece := { annsSonata with collaborators := [⟨"bob", none, none⟩] }

/-- The documents of the sonata and of what is drawn on it. -/
def sonataDocs : Cloud :=
  (Cloud.empty.store (.pieces "p") (some (pieceToFirestore bobsSonata))).store (.layers "p" "bob")
    (some (layerToFirestore bobsLayer 1 noon))

/-- The sonata, as both sides have it. -/
def sharedSonata : PieceRepositories where
  pieces := { LocalPieces.fresh with pieces := [bobsSonata] }
  device := Device.fresh.cacheAnnotations "p" ⟨"p", [bobsLayer], []⟩
  client := ⟨Device.fresh, sonataDocs, [], [], [], [], [], 0⟩
  adrift := []
  purged := []

theorem doc_sonataDocs (path : DocPath) : sonataDocs.doc path =
    if path = .layers "p" "bob" then some (layerToFirestore bobsLayer 1 noon)
    else if path = .pieces "p" then some (pieceToFirestore bobsSonata) else none := by
  rw [sonataDocs, Cloud.doc_store, Cloud.doc_store]
  rfl

theorem findPiece_sharedSonata (q : String) :
    sharedSonata.pieces.findPiece q = if q = "p" then some bobsSonata else none := by
  have hfind : sharedSonata.pieces.findPiece q = if "p" == q then some bobsSonata else none := by
    rw [LocalPieces.findPiece, sharedSonata, List.find?_singleton]
    rfl
  rw [hfind]
  by_cases hq : q = "p"
  · rw [if_pos hq, hq]
    rfl
  · rw [if_neg hq, if_neg (by simpa using Ne.symm hq)]

theorem mirrors_sharedSonata :
    Mirrors "p" "ann" (sharedSonata.device.annotationsFor "p") sonataDocs := by
  have hone : sharedSonata.device.annotationsFor "p" = ⟨"p", [bobsLayer], []⟩ := by
    rw [sharedSonata, Device.annotationsFor_cacheAnnotations, if_pos rfl]
  rw [hone]
  refine {
    tidy := ⟨rfl, List.nodup_singleton _, List.nodup_nil, ?_, ?_, ?_, ?_⟩
    layerDoc := ?_
    noLayerDoc := fun uid huid => ?_
    noteDoc := fun _ hn => absurd hn List.not_mem_nil
    noNoteDoc := fun id _ => ?_
    piece := ⟨_, ?_, read_pieceToFirestore_ownerId bobsSonata⟩ }
  · simp [bobsLayer, roleUnder]
  · simp [bobsLayer]
  · simp [bobsLayer, PieceAnnotations.StrokesOwned]
  · simp
  · simp [doc_sonataDocs, bobsLayer]
  · have hne : uid ≠ "bob" := by simpa [bobsLayer] using huid
    simp [doc_sonataDocs, hne]
  · simp [doc_sonataDocs]
  · simp [doc_sonataDocs]

theorem agrees_sharedSonata : sharedSonata.Agrees where
  distinct := List.nodup_singleton _
  collaborators q piece hpiece := by
    rw [findPiece_sharedSonata] at hpiece
    split_ifs at hpiece
    · obtain rfl := Option.some.inj hpiece
      exact List.nodup_singleton _
    · cases hpiece
  docs q := by
    refine ⟨noon, ?_, fun _ piece hpiece => ?_⟩
    · rw [findPiece_sharedSonata]
      refine (doc_sonataDocs _).trans ?_
      by_cases hq : q = "p"
      · rw [if_neg (by simp), if_pos (by rw [hq]), if_pos hq]
        rfl
      · rw [if_neg (by simp), if_neg (by simpa using hq), if_neg hq]
        rfl
    · rw [findPiece_sharedSonata] at hpiece
      split_ifs at hpiece
      · obtain rfl := Option.some.inj hpiece
        rfl
      · cases hpiece
  opened q user fields hfields := by
    have hdoc := (doc_sonataDocs (.reads q user)).symm.trans hfields
    simp at hdoc
  loaded user := by
    refine ⟨[], rfl, fun q => ?_⟩
    have hdoc : sharedSonata.client.cloud.doc (.reads q user) = none := by
      refine (doc_sonataDocs _).trans ?_
      simp
    rw [mark, hdoc]
    rfl
  listened user reads hreads := by cases hreads
  annotations q _ := by
    rw [findPiece_sharedSonata]
    by_cases hq : q = "p"
    · rw [if_pos hq, hq]
      exact mirrors_sharedSonata
    · rw [if_neg hq]
      refine ⟨?_, fun uid => (doc_sonataDocs _).trans ?_, fun noteId => (doc_sonataDocs _).trans ?_⟩
      · rw [sharedSonata, Device.annotationsFor_cacheAnnotations, if_neg hq]
        rfl
      · simp [hq]
      · simp

/-- A device and a cloud on which nothing fails. -/
def anyPlatform : Platform := ⟨"/documents", fun _ => "sum", id⟩

/-- A microsecond after noon. -/
def pastNoon : DateTime := ⟨43200000002, by decide⟩

/-- Bob leaves; carl is paired, and paired again; ann opens the sonata, and another piece. -/
def leavings : List PieceRequest :=
  [⟨"bob", noon, none, .leavePiece "p"⟩, ⟨"ann", noon, none, .pairCollaborator "p" "carl" none none none⟩,
    ⟨"ann", LocalPieces.later, none, .pairCollaborator "p" "carl" none none none⟩,
    ⟨"ann", pastNoon, none, .markOpened "p"⟩, ⟨"ann", pastNoon, none, .markOpened "q"⟩]

/-- Both sides end each of the calls the same way, and agree. -/
theorem pieceRepositories_agree_leavings :
    EachStep (step anyPlatform LocalPieces.universalTime) (fun s r =>
        r.SameOutcome anyPlatform LocalPieces.universalTime s ∧ r.Purges anyPlatform s)
        sharedSonata leavings ∧
      Always (step anyPlatform LocalPieces.universalTime) ShowTheSame sharedSonata leavings :=
  pieceRepositories_agree agrees_sharedSonata

/-- A piece up to the path of its base PDF. -/
def unstaged (piece : Piece) : Piece := { piece with basePdfPath := "" }

/-- In the end the sonata has another time in the cloud than on the device, its watermark another
microsecond, and bob's layer is still in the cloud. -/
theorem not_showEverything : ∃ t,
    run (step anyPlatform LocalPieces.universalTime) sharedSonata leavings = some t ∧
      (¬∃ pieces, Firestore.watchPieces t.client "ann" = some pieces ∧
        (pieces.map unstaged).Perm ((t.pieces.watchPieces "ann").map unstaged)) ∧
      (¬∃ reads, t.pieces.watchReads "ann" = some reads ∧
        ∀ q, reads.get q = (Firestore.watchReads t.client.cloud "ann").get q) ∧
      (t.pieces.findPiece "p").isSome ∧ ¬Duet.ShowTheSame "p" (t.device, t.client.cloud) := by
  have hrun : (run (step anyPlatform LocalPieces.universalTime) sharedSonata leavings).any (fun t =>
      (t.pieces.watchPieces "ann").map (·.updatedAt) == [noon] &&
      (Firestore.watchPieces t.client "ann").map (List.map (·.updatedAt)) ==
        some [LocalPieces.later] &&
      (t.pieces.watchReads "ann").map (fun reads => reads.get "p") == some (some noon) &&
      (Firestore.watchReads t.client.cloud "ann").get "p" == some pastNoon &&
      (t.pieces.findPiece "p").isSome &&
      ((watchFirst "p").exec t.device).1.toOption.map (fun a => a.layers.length) == some 0 &&
      ((Firestore.watch "p").exec Operation.perform t.client.cloud).1.toOption.map
        (fun a => a.layers.length) == some 1) = true := by decide +kernel
  obtain ⟨t, ht, hshown⟩ := (Option.any_eq_true _ _).mp hrun
  simp only [Bool.and_eq_true, beq_iff_eq] at hshown
  obtain ⟨⟨⟨⟨⟨⟨hlocal, hcloud⟩, hread⟩, hmark⟩, hfound⟩, hempty⟩, hkept⟩ := hshown
  refine ⟨t, ht, ?_, ?_, hfound, ?_⟩
  · rintro ⟨pieces, hpieces, hperm⟩
    rw [hpieces] at hcloud
    have htimes := hperm.map (·.updatedAt)
    have hunstaged : ∀ pieces : List Piece, (pieces.map unstaged).map (·.updatedAt) =
        pieces.map (·.updatedAt) := fun pieces => by rw [List.map_map]; rfl
    rw [hunstaged, hunstaged, hlocal, Option.some.inj hcloud, List.singleton_perm_singleton] at htimes
    exact absurd htimes (by decide)
  · rintro ⟨reads, hreads, hsame⟩
    rw [hreads] at hread
    have hmarked := (hsame "p").symm.trans (Option.some.inj hread)
    rw [hmark] at hmarked
    exact absurd hmarked (by decide)
  · rintro ⟨⟨a, b, ha, hb, hsame⟩, -⟩
    rw [ha] at hempty
    rw [hb] at hkept
    have hlength := hsame.layers.length_eq
    simp_all [Except.toOption]

end PieceRepositories

end Duet
