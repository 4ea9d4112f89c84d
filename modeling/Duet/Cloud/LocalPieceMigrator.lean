import Duet.Cloud.PieceRepository
import Duet.Lib.Process

/-!
# `LocalPieceMigrator`

The pieces of a device, uploaded into the account of the user who signs in: a document for each,
its base PDF, and the owner's own ink and notes as one slice. A piece that has been uploaded whole
is recorded; a pass that fails or is killed leaves the rest to the next one.

The argument `uid` is the signed-in user, and `migration` the process that runs the passes.
-/

namespace Duet

open Lib Program

/-- The outcome of a pass: how many pieces were uploaded and how many failed. -/
structure MigrationResult where
  migrated : Nat
  failed : Nat
  deriving DecidableEq, Repr

namespace Firestore

/-! ## `FirebasePieceBinaryStore` and `CloudAudioAssetStore` -/

/-- `_markUploaded`. -/
def markUploaded (pieceId : String) : ClientProgram Unit :=
  onFirestore (commit [.merge (.pieces pieceId) (Assoc.ofList [("basePdfUploaded", .bool true)])])

/-- `_alreadyStored`. -/
def alreadyStored (pieceId checksum : String) : ClientProgram Bool := do
  let stored : Option String ← ask (.pdfChecksum pieceId)
  done (stored == some checksum)

/-- The upload is skipped when the object has the checksum already. -/
def uploadBasePdf (pieceId localPath checksum : String) : ClientProgram Unit := do
  if ← alreadyStored pieceId checksum then markUploaded pieceId
  else do
    ask (.putPdf pieceId localPath checksum)
    markUploaded pieceId

/-- The path of a cached recording: `<documents>/audio_notes/<id><extension>`. -/
def audioPath (documentsDirectory id extension : String) : String :=
  Path.join (Path.join documentsDirectory "audio_notes") (id ++ extension)

/-- `put`: the recording is copied under a new id, and its upload is queued. -/
def putAudio (platform : Platform) (asset : AudioAsset) (pieceId : String) :
    ClientProgram String := do
  let id ← ask .nextAudioId
  ask (.copyAudio asset id)
  ask (.enqueueUpload ⟨pieceId, id, audioPath platform.documentsDirectory id asset.extension, 0⟩)
  done id

end Firestore

namespace LocalPieceMigrator

open Firestore

/-! ## One piece -/

section

variable (uid : String) (piece : Piece)

/-- The stroke, attributed to the user. -/
def reattributed (stroke : InkStroke) : InkStroke := { stroke with authorId := uid }

/-- The strokes of the local owner's layers, attributed to the user. -/
def ownStrokes (annotations : PieceAnnotations) : List InkStroke :=
  (annotations.layers.filter fun layer => layer.ownerId == piece.ownerId).flatMap
    fun layer => layer.strokes.map (reattributed uid)

/-- The note, attributed to the user, with the id of its recording in the cloud. -/
def rekeyed (assetId : String) (note : AudioNote) : AudioNote :=
  { note with authorId := uid, audioAssetId := assetId, deletedAt := none }

/-- The local owner's notes, attributed to the user; each recording is put afresh. -/
def migrateNotes (platform : Platform) : List AudioNote → ClientProgram (List AudioNote)
  | [] => done []
  | note :: rest =>
    if note.authorId ≠ piece.ownerId then migrateNotes platform rest
    else do
      let source ← ask (.localAudio note.audioAssetId)
      let assetId ← Firestore.putAudio platform source piece.id
      let notes ← migrateNotes platform rest
      done (rekeyed uid assetId note :: notes)

/-- The document of the piece; one left by an earlier pass is used again. -/
def ensureDoc (platform : Platform) : ClientProgram Unit := do
  match ← Fallible.attempt (getPiece piece.id) with
  | .ok _ => done ()
  | .error _ =>
    let _ ← Firestore.registerImportedPiece platform piece.id piece.title uid piece.basePdfPath
      none piece.ownerName none
    done ()

/-- The owner's slice is written when there is anything in it. -/
def migrateSlice (platform : Platform) : ClientProgram Unit := do
  let annotations ← ask (.watchAnnotations piece.id)
  let strokes := ownStrokes uid piece annotations
  let notes ← migrateNotes uid piece platform annotations.audioNotes
  if strokes ≠ [] ∨ notes ≠ [] then
    guarding piece.id do
      let now ← ask .now
      onFirestore (Firestore.replaceAuthorSlice now piece.id uid .owner strokes notes)
  else done ()

/-- `_migrateOne`. -/
def migrateOne (platform : Platform) : ClientProgram Unit := do
  ensureDoc uid piece platform
  uploadBasePdf piece.id piece.basePdfPath piece.basePdfChecksum
  migrateSlice uid piece platform

end

/-! ## A pass -/

section

variable (uid : String)

/-- The number of local pieces that are not recorded. -/
def pendingCount : ClientProgram Nat := do
  let migrated : List String ← ask (.readMigrated uid)
  let pieces ← ask .storedPieces
  done (pieces.countP fun piece => !migrated.contains piece.id)

/-- The ids are a set, in the order in which they were added. -/
def addId (ids : List String) (id : String) : List String :=
  if ids.contains id then ids else ids ++ [id]

theorem mem_addId {ids : List String} {id id' : String} : id' ∈ addId ids id ↔ id' = id ∨ id' ∈ ids := by
  rw [addId]
  split_ifs with h
  · rw [List.contains_iff_mem] at h
    grind
  · grind

/-- `_markMigrated`. -/
def markMigrated (pieceId : String) : ClientProgram Unit := do
  let migrated : List String ← ask (.readMigrated uid)
  ask (.writeMigrated uid (addId migrated pieceId))

/-- The pieces that are not recorded, one after another; one that fails is passed over. -/
def migrateEach (platform : Platform) (migrated : List String) :
    List Piece → MigrationResult → ClientProgram MigrationResult
  | [], result => done result
  | piece :: rest, result =>
    if migrated.contains piece.id then migrateEach platform migrated rest result
    else do
      match ← Fallible.attempt (migrateOne uid piece platform) with
      | .ok _ =>
        markMigrated uid piece.id
        migrateEach platform migrated rest { result with migrated := result.migrated + 1 }
      | .error _ => migrateEach platform migrated rest { result with failed := result.failed + 1 }

def migrate (platform : Platform) : ClientProgram MigrationResult := do
  let migrated : List String ← ask (.readMigrated uid)
  let pieces ← ask .storedPieces
  migrateEach uid platform migrated pieces ⟨0, 0⟩

end

end LocalPieceMigrator

/-! ## The process -/

/-- What is left of a client when the app is killed: `CloudAudioAssetStore` counts from 0 again. -/
def Client.restart (client : Client) : Client := { client with audioSeq := 0 }

/-- A client on which passes run, one at a time. -/
abbrev Migration :=
  Process Client ClientOperation ClientOperation.Response CloudFailure MigrationResult

/-- An event of the migration. -/
abbrev MigrationEvent := ProcessEvent Given CloudFailure

/-- One event: a pass begins, its next operation meets its fate, or the app is killed. -/
def Migration.step (platform : Platform) (uid : String) (m : Migration) :
    MigrationEvent → Option Migration :=
  Process.step (ClientOperation.perform platform) Client.restart
    (LocalPieceMigrator.migrate uid platform) m

/-! ## The operations of a pass -/

namespace LocalPieceMigrator

/-- The batch that replaces a slice: the layer is set, old notes are deleted, new ones set. -/
def sliceBatch (pieceId uid : String) (layer : Fields) (existing : List (DocPath × Fields))
    (notes : List AudioNote) : List Write :=
  .set (.layers pieceId uid) layer ::
    ((existing.map fun entry => .delete entry.1) ++
      notes.map fun note => .set (.notes pieceId note.id) (audioNoteToFirestore note))

/-- The batch of a slice: its layer and its notes are stored, and what it deletes is gone. -/
theorem commit_sliceBatch (cloud : Cloud) (pieceId uid : String) (layer : Fields)
    {existing : List (DocPath × Fields)} (notes : List AudioNote)
    (hexisting : ∀ entry ∈ existing, (Query.notesBy pieceId uid).selects entry.1 entry.2 = true) :
    ∃ cloud', cloud.commit (sliceBatch pieceId uid layer existing notes) = .ok cloud' ∧
      cloud'.doc (.layers pieceId uid) = some layer ∧
      (∀ note ∈ notes, ∃ last ∈ notes, last.id = note.id ∧
        cloud'.doc (.notes pieceId note.id) = some (audioNoteToFirestore last)) ∧
      ∀ path, path ≠ .layers pieceId uid → (∀ note ∈ notes, path ≠ .notes pieceId note.id) →
        cloud'.doc path = if path ∈ existing.map (·.1) then none else cloud.doc path := by
  obtain ⟨cleared, hcleared, hclearedDoc⟩ := (cloud.store (.layers pieceId uid)
    (some layer)).commit_deletes (existing.map (·.1))
  obtain ⟨cloud', hcommit, hset, hkept⟩ := cleared.commit_sets_last
    (notes.map fun note => (DocPath.notes pieceId note.id, audioNoteToFirestore note))
  have hlayer : DocPath.layers pieceId uid ∉ existing.map (·.1) := by
    intro hmem
    obtain ⟨⟨path, data⟩, hentry, rfl⟩ := List.mem_map.mp hmem
    exact absurd (hexisting _ hentry) (by simp [Query.selects])
  refine ⟨cloud', ?_, ?_, fun note hnote => ?_, fun path hpath hnot => ?_⟩
  · have hresult : Write.result (.set (.layers pieceId uid) layer)
        (cloud.doc (.layers pieceId uid)) = .ok (some layer) := rfl
    rw [List.map_map] at hcleared
    rw [sliceBatch, Cloud.commit_cons_of_ok hresult, Cloud.commit_append, Write.path]
    simp only [Function.comp_def] at hcleared
    rw [hcleared]
    simpa only [List.map_map, Function.comp_def, Except.bind] using hcommit
  · rw [hkept _ (by simp), hclearedDoc, if_neg hlayer, Cloud.doc_store_self]
  · obtain ⟨fields, hmem, hdoc⟩ := hset (.notes pieceId note.id)
      (List.mem_map.mpr ⟨_, List.mem_map_of_mem hnote, rfl⟩)
    obtain ⟨last, hlast, heq⟩ := List.mem_map.mp hmem
    obtain ⟨hid, rfl⟩ := Prod.mk.inj heq
    exact ⟨last, hlast, (DocPath.notes.inj hid).2, hdoc⟩
  · rw [hkept _ (by simpa [eq_comm] using hnot), hclearedDoc, Cloud.doc_store_of_ne _ hpath]

/-- What migrating a piece does to the documents, besides reading them. -/
inductive Writes (uid pieceId : String) : List Write → Prop where
  | piece (fields : Fields) : Writes uid pieceId [.set (.pieces pieceId) fields]
  | uploaded (fields : Fields) : Writes uid pieceId [.merge (.pieces pieceId) fields]
  | slice (strokes : List InkStroke) (rev : Int) (now : DateTime)
      (existing : List (DocPath × Fields)) (notes : List AudioNote)
      (hexisting : ∀ entry ∈ existing, (Query.notesBy pieceId uid).selects entry.1 entry.2 = true) :
      Writes uid pieceId (sliceBatch pieceId uid
        (layerToFirestore ⟨uid, .owner, strokes, none⟩ rev now) existing notes)

/-- A batch of a pass is never refused. -/
theorem Writes.commits {uid pieceId : String} {writes : List Write} (h : Writes uid pieceId writes)
    (cloud : Cloud) : ∃ cloud', cloud.commit writes = .ok cloud' := by
  cases h with
  | piece fields => exact ⟨_, rfl⟩
  | uploaded fields => exact ⟨_, rfl⟩
  | slice strokes rev now existing notes hexisting =>
    obtain ⟨cloud', hcommit, -⟩ := commit_sliceBatch cloud pieceId uid _ notes hexisting
    exact ⟨cloud', hcommit⟩

/-- The operations that migrate the piece, besides the copy that stages it. -/
def Issued (uid : String) (piece : Piece) : ClientOperation → Prop
  | .firestore (.get _) | .firestore (.list _) => True
  | .firestore (.commit writes) => Writes uid piece.id writes
  | .putPdf pieceId localPath checksum => pieceId = piece.id ∧ localPath = piece.basePdfPath ∧
      checksum = piece.basePdfChecksum
  | .firestore (.transaction _) | .newDocId | .copyFile _ _ | .readDone _ | .writeDone _ _
  | .writeMigrated _ _ | .confirm _ => False
  | _ => True

/-- The operations that migrate the piece. -/
def StagedOrIssued (uid : String) (piece : Piece) (o : ClientOperation) : Prop :=
  Issued uid piece o ∨ ∃ source dest, o = .copyFile source dest

/-- A query responds with documents that it selects. -/
def Selects : (op : Operation) → op.Response → Prop
  | .list query, docs => ∀ entry ∈ (show List (DocPath × Fields) from docs),
      query.selects entry.1 entry.2 = true
  | _, _ => True

/-- The responses that a pass counts on. -/
def Responds (pieces : List Piece) : (o : ClientOperation) → Except CloudFailure o.Response → Prop
  | .firestore op, .ok response => Selects op response
  | .storedPieces, .ok stored => stored = pieces
  | _, _ => True

theorem responds_error (pieces : List Piece) (o : ClientOperation) (e : CloudFailure) :
    Responds pieces o (.error e) := by
  cases o <;> trivial

/-- The device answers a pass as it counts on. -/
theorem responds_apply {pieces : List Piece} {client : Client} (h : client.device.pieces = pieces)
    (platform : Platform) (given : Given) (fate : Fate CloudFailure) (o : ClientOperation) :
    Responds pieces o (fate.apply client (o.perform platform given client)).1 := by
  cases fate with
  | refused e => exact responds_error pieces o e
  | unreported e => exact responds_error pieces o e
  | performed =>
    cases hresponse : (o.perform platform given client).1 with
    | error e =>
      rw [Fate.apply, hresponse]
      exact responds_error pieces o e
    | ok response =>
      rw [Fate.apply, hresponse]
      cases o with
      | firestore op =>
        cases op with
        | list query =>
          obtain rfl := Except.ok.inj hresponse
          intro entry hentry
          exact (Cloud.mem_list.mp hentry).2
        | _ => trivial
      | storedPieces =>
        obtain rfl := Except.ok.inj hresponse
        exact h
      | _ => trivial

section

open Firestore

variable {uid : String} {pieces : List Piece} {piece : Piece} {platform : Platform} {α : Type}

/-- A program that issues what migrates the piece, besides the copy. -/
abbrev IssuesPiece (uid : String) (pieces : List Piece) (piece : Piece) (p : ClientProgram α) : Prop :=
  p.Issues (Responds pieces) (Issued uid piece)

theorem issues_ask_bind {o : ClientOperation} {f : o.Response → ClientProgram α}
    (ho : Issued uid piece o) (hf : ∀ a, Responds pieces o (.ok a) → IssuesPiece uid pieces piece (f a)) :
    IssuesPiece uid pieces piece (ask o >>= f) := .ask_bind ho hf

theorem issues_ask {o : ClientOperation} (ho : Issued uid piece o) :
    IssuesPiece uid pieces piece (ask o) := .ask ho

/-- A program on the documents that reads and commits what a pass may. -/
theorem issues_onFirestore {p : AdminProgram α}
    (h : p.Issues Selects fun o => Issued uid piece (.firestore o)) :
    IssuesPiece uid pieces piece (onFirestore p) := by
  refine Issues.lift ?_ ?_ h
  · intro op hop
    exact hop
  · intro op response hresponse
    exact hresponse

theorem issues_guarding {ok : ClientOperation → Prop} {resourceId : String} {p : ClientProgram α}
    (h : p.Issues (Responds pieces) ok) : (guarding resourceId p).Issues (Responds pieces) ok := by
  refine h.attempt.bind fun outcome => ?_
  rcases outcome with e | a
  · cases e <;> trivial
  · trivial

theorem issues_getDoc (path : DocPath) : IssuesPiece uid pieces piece (onFirestore (getDoc path)) :=
  issues_onFirestore ⟨trivial, fun _ _ => trivial⟩

theorem issues_commit {writes : List Write} (h : Writes uid piece.id writes) :
    IssuesPiece uid pieces piece (onFirestore (commit writes)) :=
  issues_onFirestore ⟨h, fun _ _ => trivial⟩

theorem issues_getPiece (pieceId : String) : IssuesPiece uid pieces piece (getPiece pieceId) := by
  refine issues_guarding (.bind (issues_getDoc _) fun data => ?_)
  have hpath : IssuesPiece uid pieces piece (basePathFor pieceId) :=
    issues_ask_bind trivial fun _ _ => trivial
  refine .bind hpath fun basePdfPath => ?_
  split <;> trivial

/-- Staging a piece copies its base PDF. -/
abbrev StagesPiece (uid : String) (pieces : List Piece) (piece : Piece) (p : ClientProgram α) : Prop :=
  p.Issues (Responds pieces) (StagedOrIssued uid piece)

theorem stages_of_issues {p : ClientProgram α} (h : IssuesPiece uid pieces piece p) :
    StagesPiece uid pieces piece p := h.mono fun _ => .inl

theorem issues_recordBasePath (pieceId path : String) :
    IssuesPiece uid pieces piece (recordBasePath pieceId path) :=
  issues_ask_bind trivial fun _ _ => issues_ask trivial

theorem issues_createPiece (title ownerId : String) (ownerName : Option String)
    (collaborators : List Collaborator) (staged : String × String) : IssuesPiece uid pieces piece
      (createPiece piece.id title ownerId ownerName collaborators staged) :=
  issues_ask_bind trivial fun _ _ => .bind (issues_commit (.piece _)) fun _ => trivial

theorem stages_stageLocally (id sourcePath : String) :
    StagesPiece uid pieces piece (stageLocally platform id sourcePath) :=
  .ask_bind (.inl trivial) fun _ _ => .ask_bind (.inr ⟨_, _, rfl⟩) fun _ _ => trivial

theorem stages_registerImportedPiece (title ownerId sourcePath : String)
    (collaboratorId ownerName collaboratorName : Option String) :
    StagesPiece uid pieces piece (Firestore.registerImportedPiece platform piece.id title ownerId
      sourcePath collaboratorId ownerName collaboratorName) := by
  refine issues_guarding (.bind (stages_of_issues (issues_getDoc _)) fun snapshot => ?_)
  split_ifs
  · trivial
  refine .bind (stages_stageLocally _ _) fun staged => ?_
  exact stages_of_issues (.bind (issues_recordBasePath _ _) fun _ => issues_createPiece _ _ _ _ _)

theorem stages_ensureDoc : StagesPiece uid pieces piece (ensureDoc uid piece platform) := by
  refine .bind (stages_of_issues (issues_getPiece _)).attempt fun outcome => ?_
  cases outcome with
  | ok _ => trivial
  | error _ => exact .bind (stages_registerImportedPiece _ _ _ _ _ _) fun _ => trivial

theorem issues_uploadBasePdf : IssuesPiece uid pieces piece
    (uploadBasePdf piece.id piece.basePdfPath piece.basePdfChecksum) := by
  refine .bind (issues_ask_bind trivial fun _ _ => trivial) fun stored => ?_
  split_ifs
  · exact issues_commit (.uploaded _)
  · exact issues_ask_bind ⟨rfl, rfl, rfl⟩ fun _ _ => issues_commit (.uploaded _)

theorem issues_migrateNotes (notes : List AudioNote) :
    IssuesPiece uid pieces piece (migrateNotes uid piece platform notes) := by
  induction notes with
  | nil => trivial
  | cons note rest ih =>
    rw [migrateNotes]
    split_ifs
    · exact ih
    refine issues_ask_bind trivial fun source _ => ?_
    refine .bind ?_ fun assetId => .bind ih fun notes => trivial
    exact issues_ask_bind trivial fun id _ => issues_ask_bind trivial fun _ _ =>
      issues_ask_bind trivial fun _ _ => trivial

theorem issues_migrateSlice : IssuesPiece uid pieces piece (migrateSlice uid piece platform) := by
  refine issues_ask_bind trivial fun annotations _ => ?_
  refine .bind (issues_migrateNotes _) fun notes => ?_
  split_ifs
  · refine issues_guarding (issues_ask_bind trivial fun now _ => issues_onFirestore ?_)
    refine .perform_bind trivial fun previous _ => .perform_bind trivial fun existing hexisting => ?_
    refine .bind (.orFail _ _) fun rev => ⟨?_, fun _ _ => trivial⟩
    exact .slice _ _ _ existing _ hexisting
  · trivial

theorem stages_migrateOne : StagesPiece uid pieces piece (migrateOne uid piece platform) :=
  .bind stages_ensureDoc fun _ =>
    stages_of_issues (.bind issues_uploadBasePdf fun _ => issues_migrateSlice)

end

/-! ## What is left -/

section

variable {platform : Platform} {given : Given} {client : Client} {uid : String}

theorem exec_pendingCount (given : Given) (client : Client) :
    (pendingCount uid).exec (ClientOperation.interpret platform given) client =
      (.ok (client.device.pieces.countP fun piece =>
        !(client.migratedIds uid).contains piece.id), client) := rfl

theorem countP_eq_zero_iff : (client.device.pieces.countP fun piece =>
    !(client.migratedIds uid).contains piece.id) = 0 ↔
      ∀ piece ∈ client.device.pieces, piece.id ∈ client.migratedIds uid := by
  simp [List.countP_eq_zero]

end

/-! ## What a pass keeps -/

section

variable {σ : Type} {next : (o : ClientOperation) → σ → Except CloudFailure o.Response → σ → Prop}
  {uid : String} {platform : Platform} {pieces : List Piece}

/-- The client once the piece has been recorded. -/
def recorded (client : Client) (uid pieceId : String) : Client :=
  { client with migrated := client.migrated.set uid (addId (client.migratedIds uid) pieceId) }

theorem mem_migratedIds_recorded {client : Client} {pieceId id : String} :
    id ∈ (recorded client uid pieceId).migratedIds uid ↔
      id = pieceId ∨ id ∈ client.migratedIds uid := by
  rw [Client.migratedIds, recorded, Assoc.get_set_self, Option.getD_some, mem_addId]

/-- Recording a piece, on a state of which the client is a part. -/
theorem upholds_markMigrated (view : σ → Client)
    {perform : Given → (o : ClientOperation) → σ → Except CloudFailure o.Response × σ}
    {may : Given → Fate CloudFailure → ClientOperation → σ → Prop} {faults : Prop}
    (hview : ∀ given o s, ((perform given o s).1, view (perform given o s).2) =
      o.perform platform given (view s))
    (hfault : ∀ given fate o s, may given fate o s → fate ≠ .performed → faults)
    (K K' : Client → Prop) (hweak : ∀ client, K' client → K client) {pieceId : String} {s : σ}
    (hs : K (view s)) (hrecorded : K' (recorded (view s) uid pieceId)) :
    Upholds (Faulty perform may) (fun t => K (view t)) (markMigrated uid pieceId)
      (fun _ t => K' (view t)) (fun _ => faults) s := by
  have hread : Upholds (Faulty perform may) (fun t => K (view t))
      (ask (.readMigrated uid)) (fun ids t => view t = view s ∧ ids = (view s).migratedIds uid)
      (fun _ => faults) s := by
    refine .ask hs (fun given _ _ => ?_) fun given fate _ => hfault given fate _ _
    obtain ⟨hresponse, hsame⟩ := Prod.mk.inj (hview given (.readMigrated uid) s)
    rw [hresponse]
    have hsame : view (perform given (.readMigrated uid) s).2 = view s := hsame
    exact ⟨hsame ▸ hs, hsame, rfl⟩
  refine hread.bind ?_
  rintro ids t hK ⟨hsame, rfl⟩
  refine .ask hK (fun given _ _ => ?_) fun given fate _ => hfault given fate _ _
  obtain ⟨hresponse, hwritten⟩ := Prod.mk.inj (hview given
    (.writeMigrated uid (addId ((view s).migratedIds uid) pieceId)) t)
  have hwritten : view (perform given
      (.writeMigrated uid (addId ((view s).migratedIds uid) pieceId)) t).2 =
        recorded (view s) uid pieceId := by
    rw [hwritten, hsame]
    rfl
  have hK' := hwritten ▸ hrecorded
  rw [hresponse]
  exact ⟨hweak _ hK', hK'⟩

/-- `J ids` says which pieces have been recorded. When migrating one piece keeps it and makes the
piece ready, and recording a ready piece adds its id, a pass in which no piece fails adds the ids of
all its pieces. Without faults none fails. -/
theorem upholds_migrateEach (J : List String → σ → Prop) (Ready : Piece → σ → Prop) (faults : Prop)
    (hweak : ∀ ids s, J ids s → J [] s) (migrated : List String)
    (hone : ∀ piece ∈ pieces, piece.id ∉ migrated → ∀ ids s, J ids s →
      Upholds next (J []) (migrateOne uid piece platform) (fun _ t => J ids t ∧ Ready piece t)
        (fun t => J ids t ∧ faults) s)
    (hmark : ∀ piece ∈ pieces, ∀ ids s, J ids s → Ready piece s →
      Upholds next (J []) (markMigrated uid piece.id) (fun _ t => J (piece.id :: ids) t)
        (fun _ => faults) s)
    {rest : List Piece} (hrest : ∀ piece ∈ rest, piece ∈ pieces) (result : MigrationResult)
    (ids : List String) {s : σ} (hs : J ids s) :
    Upholds next (J []) (migrateEach uid platform migrated rest result) (fun r t =>
        result.failed ≤ r.failed ∧ (¬faults → r.failed = result.failed) ∧
          (r.failed = result.failed →
            ∃ ids', J ids' t ∧ ids ⊆ ids' ∧ ∀ piece ∈ rest, piece.id ∈ migrated ++ ids'))
      (fun _ => faults) s := by
  induction rest generalizing result ids s with
  | nil =>
    exact .done (hweak ids s hs)
      ⟨le_rfl, fun _ => rfl, fun _ => ⟨ids, hs, List.Subset.refl ids, by simp⟩⟩
  | cons piece rest ih =>
    have hpiece := hrest piece (by simp)
    have hrest' : ∀ p ∈ rest, p ∈ pieces := fun p hp => hrest p (List.mem_cons_of_mem _ hp)
    rw [migrateEach]
    split_ifs with hdone
    · -- recorded before this pass
      refine (ih hrest' result ids hs).mono (fun _ h => h) (fun r t _ ⟨hle, hclean, hids⟩ => ?_)
        fun _ _ h => h
      refine ⟨hle, hclean, fun hfailed => ?_⟩
      obtain ⟨ids', hids', hsub, hmem⟩ := hids hfailed
      refine ⟨ids', hids', hsub, fun p hp => ?_⟩
      obtain rfl | hp := List.mem_cons.mp hp
      · exact List.mem_append_left _ (List.contains_iff_mem.mp hdone)
      · exact hmem p hp
    refine (hone piece hpiece (by simpa using hdone) ids s hs).attempt.bind fun outcome t _ hends => ?_
    cases outcome with
    | error e =>
      -- the piece fails: the count of failures goes up
      obtain ⟨hJ, hfaults⟩ := hends
      refine (ih hrest' { result with failed := result.failed + 1 } ids hJ).mono (fun _ h => h)
        (fun r u _ ⟨hle, _, _⟩ => ?_) fun _ _ h => h
      dsimp only at hle
      exact ⟨by omega, fun hclean => absurd hfaults hclean, fun hfailed => by omega⟩
    | ok a =>
      refine (hmark piece hpiece ids t hends.1 hends.2).bind fun _ u _ hmarked => ?_
      refine (ih hrest' { result with migrated := result.migrated + 1 } _ hmarked).mono
        (fun _ h => h) (fun r v _ ⟨hle, hclean, hids⟩ => ?_) fun _ _ h => h
      refine ⟨hle, hclean, fun hfailed => ?_⟩
      obtain ⟨ids', hids', hsub, hmem⟩ := hids hfailed
      refine ⟨ids', hids', List.Subset.trans (List.subset_cons_self _ _) hsub, fun p hp => ?_⟩
      obtain rfl | hp := List.mem_cons.mp hp
      · exact List.mem_append_right _ (hsub List.mem_cons_self)
      · exact hmem p hp

/-! ### The documents -/

variable {may : Given → Fate CloudFailure → ClientOperation → Client → Prop} {client : Client}
  {A : Client → Prop} {E : Client → Prop} {α : Type}

theorem upholds_guarding {resourceId : String} {p : ClientProgram α} {B : α → Client → Prop}
    (h : Upholds (Faulty (ClientOperation.perform platform) may) A p B E client) :
    Upholds (Faulty (ClientOperation.perform platform) may) A (guarding resourceId p) B E
      client := by
  refine h.attempt.bind fun outcome t hA hends => ?_
  rcases outcome with e | a
  · cases e <;> exact .fail hA hends
  · exact .done hA hends

/-- An operation on a document. -/
theorem upholds_onFirestore_perform {op : Operation} {B : op.Response → Client → Prop}
    (hfault : ∀ given fate o s t, may given fate o s → fate ≠ .performed → E t) (hA : A client)
    (heffect : A { client with cloud := (op.perform client.cloud).2 } ∧
      EndsIn B E (op.perform client.cloud).1
        { client with cloud := (op.perform client.cloud).2 }) :
    Upholds (Faulty (ClientOperation.perform platform) may) A (onFirestore (Program.perform op)) B E
      client := by
  rw [onFirestore_perform]
  exact .ask hA (fun _ _ _ => heffect) fun given fate t => hfault given fate _ _ t

theorem upholds_getDoc (hfault : ∀ given fate o s t, may given fate o s → fate ≠ .performed → E t)
    {path : DocPath} (hA : A client) :
    Upholds (Faulty (ClientOperation.perform platform) may) A (onFirestore (getDoc path))
      (fun data t => t = client ∧ data = client.cloud.doc path) E client :=
  upholds_onFirestore_perform hfault hA ⟨hA, rfl, rfl⟩

theorem upholds_listDocs
    (hfault : ∀ given fate o s t, may given fate o s → fate ≠ .performed → E t) {query : Query}
    (hA : A client) :
    Upholds (Faulty (ClientOperation.perform platform) may) A (onFirestore (listDocs query))
      (fun docs t => t = client ∧ docs = client.cloud.list query) E client :=
  upholds_onFirestore_perform hfault hA ⟨hA, rfl, rfl⟩

/-- A batch that is applied. -/
theorem upholds_commit
    (hfault : ∀ given fate o s t, may given fate o s → fate ≠ .performed → E t)
    {writes : List Write} {cloud : Cloud} {C : Client → Prop}
    (hcommit : client.cloud.commit writes = .ok cloud) (hA : A client)
    (heffect : A { client with cloud := cloud }) (hC : C { client with cloud := cloud }) :
    Upholds (Faulty (ClientOperation.perform platform) may) A (onFirestore (commit writes))
      (fun _ t => C t) E client := by
  have hperform : (Operation.commit writes).perform client.cloud = (.ok (), cloud) :=
    Cloud.settle_ok hcommit
  refine upholds_onFirestore_perform hfault hA ?_
  rw [hperform]
  exact ⟨heffect, hC⟩

end

end LocalPieceMigrator

end Duet
