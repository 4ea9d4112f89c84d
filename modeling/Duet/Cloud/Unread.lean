import Duet.Cloud.Activity
import Duet.Cloud.PieceRepository
import Duet.Cloud.Rules
import Duet.Library.State
import Duet.Lib.Transition

/-!
# Unread pieces

The history of one shared piece: its participants write layers and notes, the activity triggers run,
each once and in any order, the owner renames the piece, and participants open it.

A trigger moves its editor's watermark too, so that an edit counts as an opening of the piece.

## Main results

* `SharedPiece.unread_law` — what others do makes a piece unread, until it is opened or edited.
* `SharedPiece.not_unread_until_opened` — an own edit that hides another participant's.
-/

namespace Duet

open Lib Program

/-! ## What a viewer sees -/

/-- What a document contributes to `watchReads`: the piece, and when it was last opened. -/
def readOf? (uid : String) : DocPath × Fields → Option (String × DateTime)
  | (.reads pieceId _, fields) =>
    if fields.read "uid" = .string uid then
      (asDate (fields.read "lastOpenedAt")).map fun openedAt => (pieceId, openedAt)
    else none
  | _ => none

namespace Firestore

/-- `watchReads`, for the documents at hand: those of the collection group that name the user. -/
def watchReads (cloud : Cloud) (uid : String) : Assoc String DateTime :=
  .ofList (cloud.docs.filterMap (readOf? uid))

/-- What `renamePiece` asks of Firestore. -/
def renamingPiece (pieceId title : String) (now : DateTime) : Operation :=
  .transaction (mutation pieceId now fun piece => .ok (some { piece with title := title }))

/-- What `markOpened` asks of Firestore. -/
def openingPiece (pieceId uid : String) (now : DateTime) : Operation :=
  .commit [.merge (.reads pieceId uid) (watermark uid now)]

end Firestore

/-- Whether the library of a user shows the piece as unread. -/
def Cloud.unread (cloud : Cloud) (pieceId userId : String) : Bool :=
  match (cloud.doc (.pieces pieceId)).bind fun data => pieceFromFirestore pieceId data "" with
  | none => false
  | some piece =>
    LibraryState.isUnread ⟨userId, [piece], Firestore.watchReads cloud userId⟩ piece

/-! ## The history of a piece -/

/-- The documents, the time, and the activity that no trigger has processed, with its writers. -/
structure SharedPiece where
  cloud : Cloud
  clock : Int
  pending : List (String × Activity)

inductive SharedEvent where
  | write (uid : String) (write : Write)
  | deliver (writer : String) (activity : Activity) (now : DateTime)
  | rename (uid title : String) (now : DateTime)
  | markOpened (uid : String) (now : DateTime)
  deriving DecidableEq, Repr

namespace SharedEvent

/-- The user opens the piece. -/
def marksOpened (v : String) : SharedEvent → Bool
  | .markOpened uid _ => uid == v
  | _ => false

/-- The user opens the piece, or an edit of the user's is processed. -/
def opensFor (v : String) : SharedEvent → Bool
  | .markOpened uid _ => uid == v
  | .deliver writer activity _ => writer == v && activity.editor?.isSome
  | _ => false

end SharedEvent

namespace SharedPiece

variable (pieceId : String)

/-- The path is one of a layer or a note of the piece. -/
def isSlicePath : DocPath → Bool
  | .layers pieceId' _ | .notes pieceId' _ => pieceId' == pieceId
  | _ => false

/-- An operation that the rules permit, at the time of the client's clock. -/
def request (s : SharedPiece) (uid : String) (op : Operation) (now : DateTime) :
    Option SharedPiece :=
  if op.Permitted (some uid) s.cloud ∧ s.clock ≤ now.micros then
    some { s with cloud := (Operation.perform op s.cloud).2, clock := now.micros }
  else none

/-- One event. A trigger runs later than everything before it. -/
def step (s : SharedPiece) : SharedEvent → Option SharedPiece
  | .write uid write =>
    if isSlicePath pieceId write.path ∧ s.cloud.permitsWrite (some uid) write then
      match s.cloud.commit [write] with
      | .ok cloud => some { s with
          cloud := cloud
          pending := s.pending ++
            (Activity.of? (cloud.doc write.path) write.path).toList.map fun a => (uid, a) }
      | .error _ => none
    else none
  | .deliver writer activity now =>
    if (writer, activity) ∈ s.pending ∧ s.clock < now.micros then
      some ⟨((activity.trigger now).exec Operation.perform s.cloud).2, now.micros,
        s.pending.erase (writer, activity)⟩
    else none
  | .rename uid title now => s.request uid (Firestore.renamingPiece pieceId title now) now
  | .markOpened uid now => s.request uid (Firestore.openingPiece pieceId uid now) now

/-- The document of the piece, on which `v` collaborates, has been changed by the time `clock`. -/
def PieceBy (v : String) (cloud : Cloud) (clock : Int) : Prop :=
  ∃ fields piece, cloud.doc (.pieces pieceId) = some fields ∧
    pieceFromFirestore pieceId fields "" = some piece ∧ piece.isCollaborator v = true ∧
      piece.updatedAt.micros ≤ clock

/-- The read documents of the piece name their users and hold watermarks up to the time `clock`. -/
def ReadsBy (cloud : Cloud) (clock : Int) : Prop :=
  ∀ uid fields, cloud.doc (.reads pieceId uid) = some fields →
    fields.get "uid" = some (.string uid) ∧ ∃ openedAt : DateTime,
      fields.get "lastOpenedAt" = some (toTimestamp openedAt) ∧ openedAt.micros ≤ clock

/-- A history begins: every write so far has been processed. -/
structure Begins (v : String) (s : SharedPiece) : Prop where
  piece : PieceBy pieceId v s.cloud s.clock
  reads : ReadsBy pieceId s.cloud s.clock
  quiet : s.pending = []

/-- What holds all along the history. -/
structure Inv (v : String) (s : SharedPiece) : Prop where
  piece : PieceBy pieceId v s.cloud s.clock
  reads : ReadsBy pieceId s.cloud s.clock
  pending : ∀ writer activity, (writer, activity) ∈ s.pending → activity.pieceId = pieceId ∧
    ∀ editorUid, activity.editor? = some editorUid → editorUid = writer

/-- From when an edit of another participant is processed, the piece is unread for the viewer, up
to an event that `opens` it. -/
def UnreadUntil (opens : SharedEvent → Bool) (v : String) (s₀ : SharedPiece) : Prop :=
  ∀ es writer activity now fs u, writer ≠ v → activity.editor?.isSome = true →
    (∀ e ∈ fs, opens e = false) →
      run (step pieceId) s₀ (es ++ .deliver writer activity now :: fs) = some u →
        u.cloud.unread pieceId v = true

variable {pieceId}

/-- A document contributes the watermark of its own user. -/
theorem mem_reads_iff {cloud : Cloud} {uid : String} {openedAt : DateTime}
    (h : ∀ user fields, cloud.doc (.reads pieceId user) = some fields →
      fields.get "uid" = some (.string user)) :
    (pieceId, openedAt) ∈ cloud.docs.filterMap (readOf? uid) ↔
      ∃ fields, cloud.doc (.reads pieceId uid) = some fields ∧
        asDate (fields.read "lastOpenedAt") = some openedAt := by
  rw [List.mem_filterMap]
  constructor
  · rintro ⟨⟨path, fields⟩, hmem, hread⟩
    have hdoc : cloud.doc path = some fields := (Assoc.mem_iff_get cloud.nodup).mp hmem
    cases path with
    | reads pieceId' user =>
      simp only [readOf?] at hread
      split_ifs at hread with huid
      obtain ⟨openedAt', hopened, heq⟩ := Option.map_eq_some_iff.mp hread
      obtain ⟨rfl, rfl⟩ := Prod.mk.inj heq
      have huser : uid = user := by
        have hown := h user fields hdoc
        rw [Fields.read, hown] at huid
        simpa using huid.symm
      exact ⟨fields, huser ▸ hdoc, hopened⟩
    | _ => cases hread
  · rintro ⟨fields, hdoc, hopened⟩
    refine ⟨(.reads pieceId uid, fields), (Assoc.mem_iff_get cloud.nodup).mpr hdoc, ?_⟩
    have huid : fields.read "uid" = .string uid := by
      rw [Fields.read, h uid fields hdoc]
      rfl
    rw [readOf?, if_pos huid, hopened]
    rfl

/-- The watermark of a user on a piece, where every read document names the user it belongs to. -/
theorem get_watchReads {cloud : Cloud} {uid : String}
    (h : ∀ user fields, cloud.doc (.reads pieceId user) = some fields →
      fields.get "uid" = some (.string user)) :
    (Firestore.watchReads cloud uid).get pieceId =
      (cloud.doc (.reads pieceId uid)).bind fun fields => asDate (fields.read "lastOpenedAt") := by
  rw [Firestore.watchReads, Assoc.ofList]
  cases hopened : (cloud.doc (.reads pieceId uid)).bind fun fields =>
      asDate (fields.read "lastOpenedAt") with
  | none =>
    rw [Assoc.get_foldl_set_of_not_mem, Assoc.get_nil]
    intro openedAt hmem
    obtain ⟨fields, hdoc, hdate⟩ := (mem_reads_iff h).mp hmem
    rw [hdoc, Option.bind_some, hdate] at hopened
    cases hopened
  | some openedAt =>
    have hfields := Option.bind_eq_some_iff.mp hopened
    refine Assoc.get_foldl_set_of_unique ((mem_reads_iff h).mpr hfields) (fun other hother => ?_) _
    obtain ⟨fields, hdoc, hdate⟩ := (mem_reads_iff h).mp hother
    rw [hdoc, Option.bind_some, hdate] at hopened
    exact Option.some.inj hopened

theorem id_of_pieceFromFirestore {fields : Fields} {path : String} {piece : Piece}
    (h : pieceFromFirestore pieceId fields path = some piece) : piece.id = pieceId := by
  simp only [pieceFromFirestore, Option.bind_eq_bind, Option.bind_eq_some_iff] at h
  obtain ⟨_, -, _, -, _, -, _, -, _, -, _, -, _, -, h⟩ := h
  exact (congrArg Piece.id (Option.some.inj h)).symm

/-- A piece whose document has been given a new time is the same piece, with that time. -/
theorem pieceFromFirestore_set_updatedAt {fields : Fields} {path : String} {piece : Piece}
    (h : pieceFromFirestore pieceId fields path = some piece) (now : DateTime) :
    pieceFromFirestore pieceId (fields.set "updatedAt" (toTimestamp now)) path =
      some { piece with updatedAt := now } := by
  simp only [pieceFromFirestore, Option.bind_eq_bind, Option.bind_eq_some_iff] at h
  obtain ⟨title, htitle, checksum, hchecksum, ownerId, howner, ownerName, hname, collaborators,
    hcollaborators, createdAt, hcreated, updatedAt, -, hpiece⟩ := h
  obtain rfl := Option.some.inj hpiece
  simp [pieceFromFirestore, Fields.read_set, htitle, hchecksum, howner, hname, hcollaborators,
    hcreated]

/-- A piece is unread when it has changed since the watermark. -/
theorem unread_iff {s : SharedPiece} {v : String} {fields : Fields} {piece : Piece}
    (hs : Inv pieceId v s) (hfields : s.cloud.doc (.pieces pieceId) = some fields)
    (hpiece : pieceFromFirestore pieceId fields "" = some piece)
    (hcollaborates : piece.isCollaborator v = true) :
    s.cloud.unread pieceId v = true ↔ ∀ read openedAt,
      s.cloud.doc (.reads pieceId v) = some read →
        read.get "lastOpenedAt" = some (toTimestamp openedAt) →
          openedAt.micros < piece.updatedAt.micros := by
  have hid := id_of_pieceFromFirestore hpiece
  rw [Cloud.unread, hfields, Option.bind_some, hpiece]
  simp only [LibraryState.isUnread, hcollaborates, Bool.true_and]
  rw [hid, get_watchReads fun user fields hdoc => (hs.reads user fields hdoc).1]
  cases hread : s.cloud.doc (.reads pieceId v) with
  | none => simp
  | some read =>
    obtain ⟨-, openedAt, hopened, -⟩ := hs.reads v read hread
    have hdate : asDate (read.read "lastOpenedAt") = some openedAt := by
      rw [Fields.read, hopened]
      exact asDate_toTimestamp openedAt
    rw [Option.bind_some, hdate]
    simp only [decide_eq_true_eq]
    constructor
    · intro hlt read' openedAt' hread' hopened'
      obtain rfl := Option.some.inj hread'
      rw [hopened] at hopened'
      rwa [← Value.timestamp.inj (Option.some.inj hopened')]
    · exact fun hall => hall read openedAt rfl hopened

/-! ## What the events do -/

section

variable {cloud : Cloud} {clock : Int} {v uid : String} {now : DateTime}

theorem PieceBy.mono (h : PieceBy pieceId v cloud clock) {clock' : Int} (hle : clock ≤ clock') :
    PieceBy pieceId v cloud clock' := by
  obtain ⟨fields, piece, hdoc, hpiece, hin, hupdated⟩ := h
  exact ⟨fields, piece, hdoc, hpiece, hin, Int.le_trans hupdated hle⟩

theorem ReadsBy.mono (h : ReadsBy pieceId cloud clock) {clock' : Int} (hle : clock ≤ clock') :
    ReadsBy pieceId cloud clock' := by
  intro uid fields hdoc
  obtain ⟨huid, openedAt, hopened, hbefore⟩ := h uid fields hdoc
  exact ⟨huid, openedAt, hopened, Int.le_trans hbefore hle⟩

/-- A watermark is set. -/
theorem ReadsBy.mark (h : ReadsBy pieceId cloud clock) (hle : clock ≤ now.micros) (uid : String)
    (read : Option Fields) :
    ReadsBy pieceId (cloud.store (.reads pieceId uid) (some (marked read uid now))) now.micros := by
  intro user fields hdoc
  rw [Cloud.doc_store] at hdoc
  split_ifs at hdoc with huser
  · obtain rfl := Option.some.inj hdoc
    obtain ⟨-, rfl⟩ := DocPath.reads.inj huser
    exact ⟨get_uid_marked _ _ _, now, get_lastOpenedAt_marked _ _ _, Int.le_refl _⟩
  · exact h.mono hle user fields hdoc

/-- Other documents are none of this. -/
theorem PieceBy.store (h : PieceBy pieceId v cloud clock) {path : DocPath}
    (hpath : path ≠ .pieces pieceId) (fields : Option Fields) :
    PieceBy pieceId v (cloud.store path fields) clock := by
  obtain ⟨old, piece, hdoc, hrest⟩ := h
  exact ⟨old, piece, by rw [Cloud.doc_store_of_ne _ (Ne.symm hpath), hdoc], hrest⟩

theorem ReadsBy.store (h : ReadsBy pieceId cloud clock) {path : DocPath}
    (hpath : ∀ uid, path ≠ .reads pieceId uid) (fields : Option Fields) :
    ReadsBy pieceId (cloud.store path fields) clock := by
  intro uid read hdoc
  rw [Cloud.doc_store_of_ne _ (Ne.symm (hpath uid))] at hdoc
  exact h uid read hdoc

theorem reads_ne_pieces (uid : String) : DocPath.reads pieceId uid ≠ .pieces pieceId := by
  intro h
  cases h

theorem pieces_ne_reads (uid : String) : DocPath.pieces pieceId ≠ .reads pieceId uid :=
  (reads_ne_pieces uid).symm

/-- The slices of the piece are neither its document nor its read documents. -/
theorem ne_of_isSlicePath {path : DocPath} (h : isSlicePath pieceId path = true) :
    path ≠ .pieces pieceId ∧ ∀ uid, path ≠ .reads pieceId uid := by
  cases path with
  | layers => exact ⟨nofun, nofun⟩
  | notes => exact ⟨nofun, nofun⟩
  | _ => cases h

end

variable {s t : SharedPiece} {v : String}

/-- The documents that decide it are the piece and the read document of the viewer. -/
theorem unread_congr (hs : Inv pieceId v s) (ht : Inv pieceId v t)
    (hpieces : t.cloud.doc (.pieces pieceId) = s.cloud.doc (.pieces pieceId))
    (hreads : t.cloud.doc (.reads pieceId v) = s.cloud.doc (.reads pieceId v)) :
    t.cloud.unread pieceId v = s.cloud.unread pieceId v := by
  obtain ⟨fields, piece, hdoc, hpiece, hin, -⟩ := hs.piece
  rw [Bool.eq_iff_iff, unread_iff ht (hpieces.trans hdoc) hpiece hin,
    unread_iff hs hdoc hpiece hin, hreads]

/-- A write to a slice, and who wrote it. -/
theorem write_step {uid : String} {write : Write} (h : step pieceId s (.write uid write) = some t) :
    isSlicePath pieceId write.path = true ∧ s.cloud.permitsWrite (some uid) write ∧
      ∃ fields, write.result (s.cloud.doc write.path) = .ok fields ∧
        t = ⟨s.cloud.store write.path fields, s.clock, s.pending ++
          (Activity.of? fields write.path).toList.map fun a => (uid, a)⟩ := by
  simp only [step] at h
  split_ifs at h with hwrite
  cases hcommit : s.cloud.commit [write] with
  | error e =>
    rw [hcommit] at h
    cases h
  | ok cloud =>
    rw [hcommit] at h
    obtain ⟨fields, hresult, rfl⟩ := Cloud.commit_singleton.mp hcommit
    refine ⟨hwrite.1, hwrite.2, fields, hresult, ?_⟩
    rw [← Option.some.inj h, Cloud.doc_store_self]

/-- The rules let a participant write what the trigger takes for the participant's own. -/
theorem editor_of_permitsWrite {cloud : Cloud} {uid : String} {write : Write}
    {fields : Option Fields} (hslice : isSlicePath pieceId write.path = true)
    (hpermits : cloud.permitsWrite (some uid) write)
    (hresult : write.result (cloud.doc write.path) = .ok fields) {activity : Activity}
    (hactivity : Activity.of? fields write.path = some activity) :
    activity.pieceId = pieceId ∧
      ∀ editorUid, activity.editor? = some editorUid → editorUid = uid := by
  rw [Cloud.permitsWrite, hresult] at hpermits
  cases hpath : write.path with
  | layers pieceId' layerId =>
    rw [hpath] at hslice hactivity hpermits
    obtain rfl := Option.some.inj hactivity
    refine ⟨by simpa [isSlicePath, Activity.pieceId] using hslice, fun editorUid heditor => ?_⟩
    cases fields with
    | none => cases heditor
    | some fields =>
      obtain rfl : layerId = editorUid := by simpa [Activity.editor?] using heditor
      dsimp only at hpermits
      split_ifs at hpermits
      · have hrule : (layersRule (some uid) (cloud.doc (.pieces pieceId')) layerId
            (.update fields)).Holds := hpermits
        exact (holds_layersRule_update.mp hrule).1
      · have hrule : (layersRule (some uid) (cloud.doc (.pieces pieceId')) layerId
            (.create fields)).Holds := hpermits
        exact (holds_layersRule_create.mp hrule).1
  | notes pieceId' noteId =>
    rw [hpath] at hslice hactivity hpermits
    obtain rfl := Option.some.inj hactivity
    refine ⟨by simpa [isSlicePath, Activity.pieceId] using hslice, fun editorUid heditor => ?_⟩
    cases fields with
    | none => cases heditor
    | some fields =>
      have hauthor : fields.get "authorId" = some (.string uid) := by
        cases hdoc : cloud.doc (.notes pieceId' noteId) with
        | none =>
          simp only [Cloud.permits, Cloud.verdict, hdoc, Option.isSome_none, Bool.false_eq_true,
            if_false] at hpermits
          exact (holds_notesRule_create.mp hpermits).2
        | some old =>
          simp only [Cloud.permits, Cloud.verdict, hdoc, Option.isSome_some, if_true] at hpermits
          obtain ⟨hold, honly⟩ := holds_notesRule_update.mp hpermits
          rw [holds_affectsOnly.mp honly _ (by decide)]
          exact hold
      rw [Activity.editor?, Option.bind_some, Fields.read, hauthor] at heditor
      exact (Option.some.inj heditor).symm
  | _ =>
    rw [hpath] at hslice
    cases hslice

/-- A trigger that names an editor moves the time of the piece and the editor's watermark. -/
theorem deliver_step {writer : String} {activity : Activity} {now : DateTime}
    (hs : Inv pieceId v s) (h : step pieceId s (.deliver writer activity now) = some t) :
    s.clock < now.micros ∧ t.clock = now.micros ∧
      t.pending = s.pending.erase (writer, activity) ∧
      (activity.editor? = none ∧ t.cloud = s.cloud ∨
        activity.editor? = some writer ∧ ∃ fields, s.cloud.doc (.pieces pieceId) = some fields ∧
          t.cloud = (s.cloud.store (.pieces pieceId)
            (some (fields.set "updatedAt" (toTimestamp now)))).store (.reads pieceId writer)
              (some (marked (s.cloud.doc (.reads pieceId writer)) writer now))) := by
  simp only [step] at h
  split_ifs at h with hpending
  obtain rfl := Option.some.inj h
  refine ⟨hpending.2, rfl, rfl, ?_⟩
  obtain ⟨hpiece, heditor⟩ := hs.pending writer activity hpending.1
  obtain ⟨fields, piece, hdoc, -⟩ := hs.piece
  dsimp only
  rw [Activity.trigger_eq, hpiece]
  cases hwho : activity.editor? with
  | none => exact .inl ⟨rfl, rfl⟩
  | some editorUid =>
    obtain rfl := heditor editorUid hwho
    exact .inr ⟨rfl, fields, hdoc, congrArg Prod.snd (exec_bumpPieceActivity hdoc now editorUid)⟩

/-- A request that is granted. -/
theorem request_eq_some {uid : String} {op : Operation} {now : DateTime} :
    s.request uid op now = some t ↔ (op.Permitted (some uid) s.cloud ∧ s.clock ≤ now.micros) ∧
      t = { s with cloud := (Operation.perform op s.cloud).2, clock := now.micros } := by
  rw [request]
  split_ifs with h
  · simp [h, eq_comm]
  · simp [h]

/-- A renamed piece keeps its members, and changes when it is renamed. -/
theorem rename_step {uid title : String} {now : DateTime} (hs : Inv pieceId v s)
    (h : step pieceId s (.rename uid title now) = some t) :
    s.clock ≤ now.micros ∧ t.clock = now.micros ∧ t.pending = s.pending ∧
      ∃ fields piece, s.cloud.doc (.pieces pieceId) = some fields ∧
        pieceFromFirestore pieceId fields "" = some piece ∧ t.cloud = s.cloud.store
          (.pieces pieceId) (some (pieceToFirestore { piece with title := title, updatedAt := now }))
    := by
  obtain ⟨⟨-, hclock⟩, rfl⟩ := request_eq_some.mp h
  obtain ⟨fields, piece, hdoc, hpiece, -⟩ := hs.piece
  refine ⟨hclock, rfl, rfl, fields, piece, hdoc, hpiece, ?_⟩
  simp only [Firestore.renamingPiece, Firestore.mutation, Operation.perform, Transaction.run, hdoc,
    Firestore.pieceFrom, hpiece, Except.bind, Cloud.commit_set, Cloud.settle]

/-- Opening a piece moves the watermark of the one who opens it. -/
theorem markOpened_step {uid : String} {now : DateTime}
    (h : step pieceId s (.markOpened uid now) = some t) :
    s.clock ≤ now.micros ∧ t = ⟨s.cloud.store (.reads pieceId uid)
      (some (marked (s.cloud.doc (.reads pieceId uid)) uid now)), now.micros, s.pending⟩ := by
  obtain ⟨⟨-, hclock⟩, rfl⟩ := request_eq_some.mp h
  exact ⟨hclock, rfl⟩

/-- Every event keeps the invariant. -/
theorem inv_step {e : SharedEvent} (hs : Inv pieceId v s) (h : step pieceId s e = some t) :
    Inv pieceId v t := by
  cases e with
  | write uid write =>
    obtain ⟨hslice, hpermits, fields, hresult, rfl⟩ := write_step h
    obtain ⟨hpieces, hreads⟩ := ne_of_isSlicePath hslice
    refine ⟨hs.piece.store hpieces fields, hs.reads.store hreads fields, ?_⟩
    intro writer activity hmem
    obtain hmem | hmem := List.mem_append.mp hmem
    · exact hs.pending writer activity hmem
    · obtain ⟨activity', hactivity, heq⟩ := List.mem_map.mp hmem
      obtain ⟨rfl, rfl⟩ := Prod.mk.inj heq
      exact editor_of_permitsWrite hslice hpermits hresult (Option.mem_toList.mp hactivity)
  | deliver writer activity now =>
    obtain ⟨hclock, hnow, hpending, hcloud⟩ := deliver_step hs h
    have hle := Int.le_of_lt hclock
    have hrest : ∀ writer' activity', (writer', activity') ∈ t.pending → _ :=
      fun writer' activity' hmem =>
        hs.pending writer' activity' (List.mem_of_mem_erase (hpending ▸ hmem))
    obtain ⟨-, hsame⟩ | ⟨-, fields, hdoc, hmoved⟩ := hcloud
    · exact ⟨hsame ▸ hnow ▸ hs.piece.mono hle, hsame ▸ hnow ▸ hs.reads.mono hle, hrest⟩
    · refine ⟨?_, ?_, hrest⟩
      · obtain ⟨fields', piece, hdoc', hpiece, hin, -⟩ := hs.piece
        obtain rfl := Option.some.inj (hdoc.symm.trans hdoc')
        rw [hmoved, hnow]
        have hpiece' : PieceBy pieceId v (s.cloud.store (.pieces pieceId)
            (some (fields.set "updatedAt" (toTimestamp now)))) now.micros :=
          ⟨_, _, Cloud.doc_store_self _ _ _, pieceFromFirestore_set_updatedAt hpiece now, hin,
            Int.le_refl _⟩
        exact hpiece'.store (reads_ne_pieces writer) _
      · rw [hmoved, hnow]
        exact (hs.reads.store pieces_ne_reads _).mark hle writer _
  | rename uid title now =>
    obtain ⟨hclock, hnow, hpending, fields, piece, hdoc, hpiece, hcloud⟩ := rename_step hs h
    refine ⟨?_, ?_, hpending ▸ hs.pending⟩
    · obtain ⟨fields', piece', hdoc', hpiece', hin, -⟩ := hs.piece
      obtain rfl := Option.some.inj (hdoc.symm.trans hdoc')
      obtain rfl := Option.some.inj (hpiece.symm.trans hpiece')
      obtain rfl := id_of_pieceFromFirestore hpiece
      rw [hcloud, hnow]
      refine ⟨_, _, Cloud.doc_store_self _ _ _, pieceFromFirestore_pieceToFirestore _ _, hin, ?_⟩
      exact Int.le_refl _
    · rw [hcloud, hnow]
      exact (hs.reads.mono hclock).store pieces_ne_reads _
  | markOpened uid now =>
    obtain ⟨hclock, rfl⟩ := markOpened_step h
    exact ⟨(hs.piece.mono hclock).store (reads_ne_pieces uid) _, hs.reads.mark hclock uid _,
      hs.pending⟩

theorem Begins.inv (h : Begins pieceId v s) : Inv pieceId v s :=
  ⟨h.piece, h.reads, by rw [h.quiet]; nofun⟩

/-! ## The law -/

/-- What a trigger does for another participant makes the piece unread. -/
theorem unread_of_deliver {writer : String} {activity : Activity} {now : DateTime}
    (hs : Inv pieceId v s) (hother : writer ≠ v) (hedits : activity.editor?.isSome = true)
    (h : step pieceId s (.deliver writer activity now) = some t) :
    t.cloud.unread pieceId v = true := by
  obtain ⟨hclock, -, -, ⟨hnone, -⟩ | ⟨-, fields, hdoc, hcloud⟩⟩ := deliver_step hs h
  · rw [hnone] at hedits
    cases hedits
  · obtain ⟨fields', piece, hdoc', hpiece, hin, -⟩ := hs.piece
    obtain rfl := Option.some.inj (hdoc.symm.trans hdoc')
    have hpieces : t.cloud.doc (.pieces pieceId) =
        some (fields.set "updatedAt" (toTimestamp now)) := by
      rw [hcloud, Cloud.doc_store_of_ne _ (pieces_ne_reads writer), Cloud.doc_store_self]
    refine (unread_iff (inv_step hs h) hpieces
      (pieceFromFirestore_set_updatedAt hpiece now) hin).mpr fun read openedAt hread hopened => ?_
    have hreads : DocPath.reads pieceId v ≠ .reads pieceId writer := by simpa using hother.symm
    rw [hcloud, Cloud.doc_store_of_ne _ hreads, Cloud.doc_store_of_ne _ (reads_ne_pieces v)] at hread
    obtain ⟨-, openedAt', hopened', hbefore⟩ := hs.reads v read hread
    have heq : openedAt.micros = openedAt'.micros :=
      Value.timestamp.inj (Option.some.inj (hopened.symm.trans hopened'))
    change openedAt.micros < now.micros
    omega

/-- A piece stays unread until it is opened, or edited. -/
theorem unread_step {e : SharedEvent} (hs : Inv pieceId v s) (hunread : s.cloud.unread pieceId v = true)
    (hopens : e.opensFor v = false) (h : step pieceId s e = some t) :
    t.cloud.unread pieceId v = true := by
  have ht := inv_step hs h
  cases e with
  | write uid write =>
    obtain ⟨hslice, -, fields, -, rfl⟩ := write_step h
    obtain ⟨hpieces, hreads⟩ := ne_of_isSlicePath hslice
    rw [unread_congr hs ht (Cloud.doc_store_of_ne _ hpieces.symm _)
      (Cloud.doc_store_of_ne _ (hreads v).symm _), hunread]
  | deliver writer activity now =>
    cases hedits : activity.editor?.isSome with
    | true =>
      have hother : writer ≠ v := by simpa [SharedEvent.opensFor, hedits] using hopens
      exact unread_of_deliver hs hother hedits h
    | false =>
      obtain ⟨-, -, -, ⟨-, hsame⟩ | ⟨hsome, -⟩⟩ := deliver_step hs h
      · rw [hsame, hunread]
      · rw [hsome] at hedits
        cases hedits
  | rename uid title now =>
    obtain ⟨hclock, -, -, fields, piece, hdoc, hpiece, hcloud⟩ := rename_step hs h
    obtain ⟨fields', piece', hdoc', hpiece', hin, hupdated⟩ := hs.piece
    obtain rfl := Option.some.inj (hdoc.symm.trans hdoc')
    obtain rfl := Option.some.inj (hpiece.symm.trans hpiece')
    have hsince := (unread_iff hs hdoc hpiece hin).mp hunread
    obtain rfl := id_of_pieceFromFirestore hpiece
    have hpieces : t.cloud.doc (.pieces piece.id) =
        some (pieceToFirestore { piece with title := title, updatedAt := now }) := by
      rw [hcloud, Cloud.doc_store_self]
    refine (unread_iff ht hpieces (pieceFromFirestore_pieceToFirestore _ _) hin).mpr
      fun read openedAt hread hopened => ?_
    rw [hcloud, Cloud.doc_store_of_ne _ (reads_ne_pieces v)] at hread
    have hbefore := hsince read openedAt hread hopened
    change openedAt.micros < now.micros
    omega
  | markOpened uid now =>
    obtain ⟨-, rfl⟩ := markOpened_step h
    have hother : uid ≠ v := by simpa [SharedEvent.opensFor] using hopens
    have hreads : DocPath.reads pieceId v ≠ .reads pieceId uid := by simpa using hother.symm
    rw [unread_congr hs ht (Cloud.doc_store_of_ne _ (pieces_ne_reads uid) _)
      (Cloud.doc_store_of_ne _ hreads _), hunread]

/-- A user's own write leaves a piece that the user has read as it is. -/
theorem not_unread_of_deliver {activity : Activity} {now : DateTime} (hs : Inv pieceId v s)
    (hread : s.cloud.unread pieceId v = false)
    (h : step pieceId s (.deliver v activity now) = some t) :
    t.cloud.unread pieceId v = false := by
  obtain ⟨-, -, -, ⟨-, hsame⟩ | ⟨-, fields, hdoc, hcloud⟩⟩ := deliver_step hs h
  · rw [hsame, hread]
  · obtain ⟨fields', piece, hdoc', hpiece, hin, -⟩ := hs.piece
    obtain rfl := Option.some.inj (hdoc.symm.trans hdoc')
    have hpieces : t.cloud.doc (.pieces pieceId) =
        some (fields.set "updatedAt" (toTimestamp now)) := by
      rw [hcloud, Cloud.doc_store_of_ne _ (pieces_ne_reads v), Cloud.doc_store_self]
    have hmark : t.cloud.doc (.reads pieceId v) =
        some (marked (s.cloud.doc (.reads pieceId v)) v now) := by
      rw [hcloud, Cloud.doc_store_self]
    rw [Bool.eq_false_iff]
    intro hunread
    exact Int.lt_irrefl _ ((unread_iff (inv_step hs h) hpieces
      (pieceFromFirestore_set_updatedAt hpiece now) hin).mp hunread _ now hmark
        (get_lastOpenedAt_marked _ _ _))

theorem inv_run {s₀ : SharedPiece} {es : List SharedEvent} (hs : Inv pieceId v s₀)
    (hr : run (step pieceId) s₀ es = some s) : Inv pieceId v s :=
  run_invariant' (fun _ _ _ hs h => inv_step hs h) hs hr

/-- A piece on which another participant's edit has been processed is unread until its viewer
opens it or an edit of the viewer's own is processed; the latter never makes it unread. -/
theorem unread_law {s₀ : SharedPiece} (h₀ : Begins pieceId v s₀) :
    UnreadUntil pieceId (SharedEvent.opensFor v) v s₀ ∧
      ∀ es s activity now t, run (step pieceId) s₀ es = some s →
        step pieceId s (.deliver v activity now) = some t → s.cloud.unread pieceId v = false →
          t.cloud.unread pieceId v = false := by
  refine ⟨fun es writer activity now fs u hother hedits hopens hr => ?_,
    fun es s activity now t hr h hread => not_unread_of_deliver (inv_run h₀.inv hr) hread h⟩
  rw [run_append] at hr
  obtain ⟨s, hes, hr⟩ := Option.bind_eq_some_iff.mp hr
  obtain ⟨t, hdeliver, hr⟩ := run_cons_eq_some.mp hr
  have hs := inv_run h₀.inv hes
  have hkept := run_invariant (I := fun s => Inv pieceId v s ∧ s.cloud.unread pieceId v = true)
    (fun s e t hs hopens h => ⟨inv_step hs.1 h, unread_step hs.1 hs.2 hopens h⟩)
    ⟨inv_step hs hdeliver, unread_of_deliver hs hother hedits hdeliver⟩
    (EachStep.of_forall fun e he _ => hopens e he) hr
  exact hkept.2

/-! ### A run -/

/-- A time, not long after the epoch. -/
def instant (micros : Fin 10) : DateTime := ⟨micros, by omega⟩

/-- A piece that its owner shares with one collaborator. -/
def duetPiece : SharedPiece where
  cloud := ⟨[(.pieces "piece", pieceToFirestore
    ⟨"piece", "Sonata", "checksum", "", "owner", none, [⟨"guest", none, none⟩],
      instant 0, instant 0⟩)],
      List.nodup_singleton _⟩
  clock := 0
  pending := []

theorem begins_duetPiece : Begins "piece" "guest" duetPiece where
  piece := by
    refine ⟨_, _, rfl, pieceFromFirestore_pieceToFirestore _ _, ?_, ?_⟩ <;> decide
  reads := by
    intro uid fields hdoc
    simp [duetPiece, Cloud.doc, Assoc.get_cons] at hdoc
  quiet := rfl

/-- The layer of a participant, without strokes. -/
def blankLayer (uid : String) : Fields := layerToFirestore ⟨uid, .owner, [], none⟩ 1 (instant 0)

/-- A participant writes a layer, and the trigger processes it. -/
def edit (uid : String) (now : DateTime) : List SharedEvent :=
  [.write uid (.set (.layers "piece" uid) (blankLayer uid)),
    .deliver uid (.layer "piece" uid (some (blankLayer uid))) now]

/-- The owner's edit is unread until the guest opens the piece, which an own edit leaves read. -/
theorem unread_law_duetPiece :
    (∃ u, run (step "piece") duetPiece (edit "owner" (instant 1)) = some u ∧
      u.cloud.unread "piece" "guest" = true) ∧
    ∃ s t, run (step "piece") duetPiece (edit "owner" (instant 1) ++
        [.markOpened "guest" (instant 2),
          .write "guest" (.set (.layers "piece" "guest") (blankLayer "guest"))]) = some s ∧
      step "piece" s (.deliver "guest" (.layer "piece" "guest" (some (blankLayer "guest")))
        (instant 3)) = some t ∧
      s.cloud.unread "piece" "guest" = false ∧ t.cloud.unread "piece" "guest" = false := by
  obtain ⟨hunread, hread⟩ := unread_law begins_duetPiece
  constructor
  · have hrun : (run (step "piece") duetPiece (edit "owner" (instant 1))).isSome = true := by
      decide +kernel
    obtain ⟨u, hr⟩ := Option.isSome_iff_exists.mp hrun
    exact ⟨u, hr, hunread [.write "owner" (.set (.layers "piece" "owner") (blankLayer "owner"))]
      "owner" (.layer "piece" "owner" (some (blankLayer "owner"))) (instant 1) [] u (by decide) rfl
      (by simp) hr⟩
  · have hrun : ((run (step "piece") duetPiece (edit "owner" (instant 1) ++
        [.markOpened "guest" (instant 2),
          .write "guest" (.set (.layers "piece" "guest") (blankLayer "guest"))])).bind fun s =>
        (step "piece" s (.deliver "guest" (.layer "piece" "guest" (some (blankLayer "guest")))
          (instant 3))).map fun _ => s.cloud.unread "piece" "guest") = some false := by
      decide +kernel
    obtain ⟨s, hs, hrest⟩ := Option.bind_eq_some_iff.mp hrun
    obtain ⟨t, ht, hseen⟩ := Option.map_eq_some_iff.mp hrest
    exact ⟨s, t, hs, ht, hseen, hread _ s _ _ t hs ht hseen⟩

/-- The guest's own edit hides the owner's, which the guest has not seen. -/
theorem not_unread_until_opened : Begins "piece" "guest" duetPiece ∧
    ¬UnreadUntil "piece" (SharedEvent.marksOpened "guest") "guest" duetPiece := by
  refine ⟨begins_duetPiece, fun h => ?_⟩
  have hrun : (run (step "piece") duetPiece (edit "owner" (instant 1) ++ edit "guest" (instant 2))).map
      (fun u => u.cloud.unread "piece" "guest") = some false := by decide +kernel
  obtain ⟨u, hr, hread⟩ := Option.map_eq_some_iff.mp hrun
  have hunread := h [.write "owner" (.set (.layers "piece" "owner") (blankLayer "owner"))] "owner"
    (.layer "piece" "owner" (some (blankLayer "owner"))) (instant 1) (edit "guest" (instant 2)) u (by decide) rfl
    (by decide) hr
  rw [hread] at hunread
  cases hunread

end SharedPiece

end Duet
