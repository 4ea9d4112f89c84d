import Duet.Cloud.MigrationPdfs

/-!
# Migration converges

Over documents that nobody else writes, a pass can stop between any two of its operations and
leaves every piece without a document or with the user's own, and its slice unwritten or complete;
what is recorded is complete. A pass whose operations are all performed, from any such state, fails on
no piece: it completes and records the rest.

## Main definitions

* `Client.HasDoc`, `Client.HasSlice` — what a migrated piece has in the cloud.
* `Client.Partial` — every state that passes can leave.

## Main results

* `Migration.migration_converges` — a pass in which nothing fails succeeds, after it all pieces are
  migrated, and a further pass writes nothing.
-/

namespace Duet

open Lib Program LocalPieceMigrator

/-! ## What a migrated piece has -/

/-- The document belongs to the piece: it is the piece's own, a layer or a note of it. -/
def DocPath.OfPiece (pieceId : String) : DocPath → Prop
  | .pieces id | .layers id _ | .notes id _ => id = pieceId
  | _ => False

namespace Client

/-- The annotations of a piece on the device, as `watch` emits them. -/
def localAnnotations (client : Client) (piece : Piece) : PieceAnnotations :=
  (client.device.annotationsFor piece.id).withoutTombstones

/-- The live notes of the local owner. -/
def ownNotes (client : Client) (piece : Piece) : List AudioNote :=
  (client.localAnnotations piece).audioNotes.filter fun note => note.authorId == piece.ownerId

/-- The cloud has the piece, owned by the user and without collaborators. -/
def HasDoc (client : Client) (uid : String) (piece : Piece) : Prop :=
  ∃ data now, client.cloud.doc (.pieces piece.id) = some data ∧
    pieceFromFirestore piece.id data "" = some { piece with
      basePdfPath := "", ownerId := uid, collaborators := [], createdAt := now, updatedAt := now }

/-- The strokes of an author in the cloud, none without a layer. -/
def layerStrokes (client : Client) (pieceId uid : String) : Option (List InkStroke) :=
  match client.cloud.doc (.layers pieceId uid) with
  | none => some []
  | some data => strokesFromLayer data

/-- The asset is the recording: the device has it, and its upload to the piece is queued. -/
structure Resolves (platform : Platform) (client : Client) (pieceId assetId : String)
    (recording : AudioAsset) : Prop where
  stored : client.device.audioAssets.get assetId = some recording
  queued : ⟨pieceId, assetId, Firestore.audioPath platform.documentsDirectory assetId
    recording.extension, 0⟩ ∈ client.uploadQueue

/-- The user's layer has the local owner's strokes, and the notes of the piece are the local owner's
live notes, each with an asset that is its recording; all attributed to the user. -/
structure HasSlice (platform : Platform) (start : Client) (uid : String) (piece : Piece)
    (client : Client) : Prop where
  strokes : client.layerStrokes piece.id uid =
    some (ownStrokes uid piece (start.localAnnotations piece))
  notes : ∀ note ∈ start.ownNotes piece, ∃ assetId recording,
    client.cloud.doc (.notes piece.id note.id) =
        some (audioNoteToFirestore (rekeyed uid assetId note)) ∧
      start.device.audioAssets.get note.audioAssetId = some recording ∧
      client.Resolves platform piece.id assetId recording
  noOther : ∀ id, id ∉ (start.ownNotes piece).map (·.id) →
    client.cloud.doc (.notes piece.id id) = none

/-- Neither a layer of the user nor a note has been written. -/
structure NoSlice (uid : String) (piece : Piece) (client : Client) : Prop where
  layer : client.cloud.doc (.layers piece.id uid) = none
  notes : ∀ id, client.cloud.doc (.notes piece.id id) = none

/-- The device keeps the pieces, their annotations and the recordings that it had. -/
structure KeepsLocal (start client : Client) : Prop where
  pieces : client.device.pieces = start.device.pieces
  annotations : ∀ pieceId,
    client.device.annotationsFor pieceId = start.device.annotationsFor pieceId
  recordings : ∀ id asset, start.device.audioAssets.get id = some asset →
    client.device.audioAssets.get id = some asset

/-- What the pieces of a device are like: their ids differ, each has its base PDF, with its checksum,
staging one piece does not overwrite the base PDF of another, the ids of the notes of a piece differ,
and each of them has its recording. -/
structure Migratable (platform : Platform) (client : Client) : Prop where
  ids : (client.device.pieces.map (·.id)).Nodup
  stored : ∀ piece ∈ client.device.pieces, ∃ content,
    client.device.files.get piece.basePdfPath = some content ∧
      platform.sha256 content = piece.basePdfChecksum
  apart : ∀ piece ∈ client.device.pieces, ∀ other ∈ client.device.pieces,
    other.basePdfPath = piecesPath platform.documentsDirectory piece.id piece.basePdfPath →
      other = piece
  noteIds : ∀ piece ∈ client.device.pieces, ((client.ownNotes piece).map (·.id)).Nodup
  recordings : ∀ piece ∈ client.device.pieces, ∀ note ∈ client.ownNotes piece,
    ∃ recording, client.device.audioAssets.get note.audioAssetId = some recording

/-- Nothing of the pieces is in the cloud yet, and none is recorded. -/
structure Unmigrated (uid : String) (client : Client) : Prop where
  docs : ∀ piece ∈ client.device.pieces, client.cloud.doc (.pieces piece.id) = none
  slices : ∀ piece ∈ client.device.pieces, client.NoSlice uid piece
  recorded : ∀ piece ∈ client.device.pieces, piece.id ∉ client.migratedIds uid

/-- What passes can leave, from where they started. -/
structure Partial (platform : Platform) (uid : String) (start client : Client) : Prop where
  keeps : start.KeepsLocal client
  stored : ∀ piece ∈ start.device.pieces, ∃ content,
    client.device.files.get piece.basePdfPath = some content ∧
      platform.sha256 content = piece.basePdfChecksum
  docs : ∀ piece ∈ start.device.pieces,
    client.cloud.doc (.pieces piece.id) = none ∨ client.HasDoc uid piece
  slices : ∀ piece ∈ start.device.pieces,
    client.NoSlice uid piece ∨ start.HasSlice platform uid piece client
  revs : ∀ piece ∈ start.device.pieces,
    Firestore.nextRev (client.cloud.doc (.layers piece.id uid)) ≠ none
  recorded : ∀ piece ∈ start.device.pieces, piece.id ∈ client.migratedIds uid →
    client.HasDoc uid piece ∧ start.HasSlice platform uid piece client
  elsewhere : ∀ path : DocPath, (∀ piece ∈ start.device.pieces, ¬path.OfPiece piece.id) →
    client.cloud.doc path = start.cloud.doc path

/-- The cloud has every piece of the device and its owner's slice, every piece is recorded, and no
other document has been written. -/
structure Converged (platform : Platform) (uid : String) (start client : Client) : Prop where
  docs : ∀ piece ∈ start.device.pieces, client.HasDoc uid piece
  slices : ∀ piece ∈ start.device.pieces, start.HasSlice platform uid piece client
  recorded : ∀ piece ∈ start.device.pieces, piece.id ∈ client.migratedIds uid
  elsewhere : ∀ path : DocPath, (∀ piece ∈ start.device.pieces, ¬path.OfPiece piece.id) →
    client.cloud.doc path = start.cloud.doc path

end Client

/-! ## What changes to a client keep -/

namespace Client

variable {platform : Platform} {uid : String} {start client client' : Client} {piece : Piece}

/-- A change that leaves documents, records, annotations and base PDFs alone and loses neither a
recording nor a queued upload. -/
structure Steady (start client client' : Client) : Prop where
  cloud : client'.cloud = client.cloud
  migrated : client'.migrated = client.migrated
  pieces : client'.device.pieces = client.device.pieces
  annotations : ∀ pieceId,
    client'.device.annotationsFor pieceId = client.device.annotationsFor pieceId
  recordings : ∀ id asset, client.device.audioAssets.get id = some asset →
    client'.device.audioAssets.get id = some asset
  queue : client.uploadQueue ⊆ client'.uploadQueue
  pdfs : ∀ piece ∈ start.device.pieces,
    client'.device.files.get piece.basePdfPath = client.device.files.get piece.basePdfPath

theorem HasDoc.of_doc (h : client.HasDoc uid piece)
    (hdoc : client'.cloud.doc (.pieces piece.id) = client.cloud.doc (.pieces piece.id)) :
    client'.HasDoc uid piece := by
  obtain ⟨data, now, hdata, hread⟩ := h
  exact ⟨data, now, hdoc.trans hdata, hread⟩

/-- A recording stays resolved as long as neither it nor its upload is lost. -/
theorem Resolves.steady {pieceId assetId : String} {recording : AudioAsset}
    (h : client.Resolves platform pieceId assetId recording)
    (hsteady : Steady start client client') :
    client'.Resolves platform pieceId assetId recording :=
  ⟨hsteady.recordings _ _ h.stored, hsteady.queue h.queued⟩

/-- A slice depends on the layers and the notes of its piece. -/
theorem HasSlice.of_docs (h : start.HasSlice platform uid piece client)
    (hlayer : client'.cloud.doc (.layers piece.id uid) = client.cloud.doc (.layers piece.id uid))
    (hnotes : ∀ id, client'.cloud.doc (.notes piece.id id) = client.cloud.doc (.notes piece.id id))
    (hresolves : ∀ id asset, client.Resolves platform piece.id id asset →
      client'.Resolves platform piece.id id asset) : start.HasSlice platform uid piece client' := by
  refine ⟨?_, fun note hnote => ?_, fun id hid => (hnotes id).trans (h.noOther id hid)⟩
  · rw [layerStrokes, hlayer]
    exact h.strokes
  · obtain ⟨assetId, recording, hdoc, hsource, hput⟩ := h.notes note hnote
    exact ⟨assetId, recording, (hnotes note.id).trans hdoc, hsource,
      hresolves assetId recording hput⟩

theorem NoSlice.of_docs (h : client.NoSlice uid piece)
    (hlayer : client'.cloud.doc (.layers piece.id uid) = client.cloud.doc (.layers piece.id uid))
    (hnotes : ∀ id, client'.cloud.doc (.notes piece.id id) =
      client.cloud.doc (.notes piece.id id)) : client'.NoSlice uid piece :=
  ⟨hlayer.trans h.layer, fun id => (hnotes id).trans (h.notes id)⟩

theorem KeepsLocal.steady (h : start.KeepsLocal client) (hsteady : Steady start client client') :
    start.KeepsLocal client' where
  pieces := hsteady.pieces.trans h.pieces
  annotations pieceId := (hsteady.annotations pieceId).trans (h.annotations pieceId)
  recordings id asset hasset := hsteady.recordings id asset (h.recordings id asset hasset)

theorem HasDoc.steady (h : client.HasDoc uid piece) (hsteady : Steady start client client') :
    client'.HasDoc uid piece := h.of_doc (by rw [hsteady.cloud])

theorem HasSlice.steady (h : start.HasSlice platform uid piece client)
    (hsteady : Steady start client client') : start.HasSlice platform uid piece client' :=
  h.of_docs (by rw [hsteady.cloud]) (fun _ => by rw [hsteady.cloud]) fun _ _ hput =>
    hput.steady hsteady

theorem NoSlice.steady (h : client.NoSlice uid piece) (hsteady : Steady start client client') :
    client'.NoSlice uid piece :=
  h.of_docs (by rw [hsteady.cloud]) fun _ => by rw [hsteady.cloud]

theorem Partial.steady (h : Partial platform uid start client)
    (hsteady : Steady start client client') : Partial platform uid start client' := by
  refine ⟨h.keeps.steady hsteady, fun piece hpiece => ?_, fun piece hpiece => ?_,
    fun piece hpiece => ?_, fun piece hpiece => ?_, fun piece hpiece hid => ?_,
    fun path hpath => ?_⟩
  · rw [hsteady.pdfs piece hpiece]
    exact h.stored piece hpiece
  · obtain hnone | hdoc := h.docs piece hpiece
    · exact .inl (by rw [hsteady.cloud, hnone])
    · exact .inr (hdoc.steady hsteady)
  · obtain hnone | hslice := h.slices piece hpiece
    · exact .inl (hnone.steady hsteady)
    · exact .inr (hslice.steady hsteady)
  · rw [hsteady.cloud]
    exact h.revs piece hpiece
  · rw [migratedIds, hsteady.migrated] at hid
    obtain ⟨hdoc, hslice⟩ := h.recorded piece hpiece hid
    exact ⟨hdoc.steady hsteady, hslice.steady hsteady⟩
  · rw [hsteady.cloud]
    exact h.elsewhere path hpath

/-- A write to the documents of one piece, after which it has its document, and a slice that is
unwritten or complete. -/
theorem Partial.write (h : Partial platform uid start client) (hlocal : start.Migratable platform)
    (hpiece : piece ∈ start.device.pieces) {cloud : Cloud}
    (hother : ∀ path : DocPath, ¬path.OfPiece piece.id → cloud.doc path = client.cloud.doc path)
    (hdoc : { client with cloud := cloud }.HasDoc uid piece)
    (hslice : { client with cloud := cloud }.NoSlice uid piece ∨
      start.HasSlice platform uid piece { client with cloud := cloud })
    (hrev : Firestore.nextRev (cloud.doc (.layers piece.id uid)) ≠ none)
    (hkeep : start.HasSlice platform uid piece client →
      start.HasSlice platform uid piece { client with cloud := cloud }) :
    Partial platform uid start { client with cloud := cloud } := by
  have happart : ∀ other ∈ start.device.pieces, other ≠ piece → ∀ path : DocPath,
      path.OfPiece other.id → cloud.doc path = client.cloud.doc path := by
    intro other hmem hne path hpath
    refine hother path fun hpath' => hne (List.inj_on_of_nodup_map hlocal.ids hmem hpiece ?_)
    cases path <;> first | exact hpath.symm.trans hpath' | exact absurd hpath id
  refine ⟨⟨h.keeps.pieces, h.keeps.annotations, h.keeps.recordings⟩, h.stored,
    fun other hmem => ?_, fun other hmem => ?_, fun other hmem => ?_, fun other hmem hid => ?_,
    fun path hpath => (hother path (hpath piece hpiece)).trans (h.elsewhere path hpath)⟩
  · by_cases heq : other = piece
    · exact .inr (heq ▸ hdoc)
    have hsame := happart other hmem heq (.pieces other.id) rfl
    obtain hnone | hold := h.docs other hmem
    · exact .inl (hsame.trans hnone)
    · exact .inr (hold.of_doc hsame)
  · by_cases heq : other = piece
    · exact heq ▸ hslice
    have hsame := happart other hmem heq
    obtain hnone | hold := h.slices other hmem
    · exact .inl (hnone.of_docs (hsame (.layers _ _) rfl) fun id => hsame (.notes _ id) rfl)
    · exact .inr (hold.of_docs (hsame (.layers _ _) rfl) (fun id => hsame (.notes _ id) rfl)
        fun _ _ hput => ⟨hput.stored, hput.queued⟩)
  · by_cases heq : other = piece
    · exact heq ▸ hrev
    · rw [happart other hmem heq (.layers other.id uid) rfl]
      exact h.revs other hmem
  · obtain ⟨holdDoc, holdSlice⟩ := h.recorded other hmem hid
    by_cases heq : other = piece
    · exact heq ▸ ⟨hdoc, hkeep (heq ▸ holdSlice)⟩
    have hsame := happart other hmem heq
    exact ⟨holdDoc.of_doc (hsame (.pieces _) rfl), holdSlice.of_docs (hsame (.layers _ _) rfl)
      (fun id => hsame (.notes _ id) rfl) fun _ _ hput => ⟨hput.stored, hput.queued⟩⟩

/-- A write of the document of a piece alone. -/
theorem Partial.writeDoc (h : Partial platform uid start client)
    (hlocal : start.Migratable platform) (hpiece : piece ∈ start.device.pieces)
    {fields : Fields} {now : DateTime} (hread : pieceFromFirestore piece.id fields "" =
      some { piece with
        basePdfPath := "", ownerId := uid, collaborators := [], createdAt := now,
        updatedAt := now }) :
    Partial platform uid start
        { client with cloud := client.cloud.store (.pieces piece.id) (some fields) } ∧
      { client with cloud := client.cloud.store (.pieces piece.id) (some fields) }.HasDoc uid
        piece := by
  have hdoc : { client with cloud := client.cloud.store (.pieces piece.id) (some fields) }.HasDoc uid
      piece := ⟨fields, now, Cloud.doc_store_self _ _ _, hread⟩
  have hsame : ∀ path : DocPath, path ≠ .pieces piece.id →
      (client.cloud.store (.pieces piece.id) (some fields)).doc path = client.cloud.doc path :=
    fun path hne => Cloud.doc_store_of_ne _ hne _
  have hslice : start.HasSlice platform uid piece client → start.HasSlice platform uid piece
      { client with cloud := client.cloud.store (.pieces piece.id) (some fields) } :=
    fun hslice => hslice.of_docs (hsame _ (by simp)) (fun _ => hsame _ (by simp))
      fun _ _ hput => ⟨hput.stored, hput.queued⟩
  have hrev : Firestore.nextRev ((client.cloud.store (.pieces piece.id) (some fields)).doc
      (.layers piece.id uid)) ≠ none := by
    rw [hsame _ (by simp)]
    exact h.revs piece hpiece
  refine ⟨h.write hlocal hpiece (fun path hpath => hsame path ?_) hdoc ?_ hrev hslice, hdoc⟩
  · rintro rfl
    exact hpath rfl
  · refine (h.slices piece hpiece).imp (fun hnone => ?_) hslice
    exact hnone.of_docs (hsame _ (by simp)) fun _ => hsame _ (by simp)

/-- The notes are the given ones of the piece, attributed to the user, with assets that are their
recordings. -/
def Rekeyed (platform : Platform) (start : Client) (uid pieceId : String) (client : Client) :
    List AudioNote → List AudioNote → Prop :=
  List.Forall₂ fun note new => ∃ assetId recording, new = rekeyed uid assetId note ∧
    start.device.audioAssets.get note.audioAssetId = some recording ∧
      client.Resolves platform pieceId assetId recording

theorem Rekeyed.exists_new {pieceId : String} {notes news : List AudioNote}
    (h : start.Rekeyed platform uid pieceId client notes news)
    {note : AudioNote} (hnote : note ∈ notes) : ∃ new ∈ news, new.id = note.id := by
  induction h with
  | nil => cases hnote
  | cons hhead _ ih =>
    obtain ⟨assetId, recording, rfl, -⟩ := hhead
    obtain rfl | hnote := List.mem_cons.mp hnote
    · exact ⟨_, List.mem_cons_self, rfl⟩
    · obtain ⟨new, hnew, hid⟩ := ih hnote
      exact ⟨new, List.mem_cons_of_mem _ hnew, hid⟩

theorem Rekeyed.exists_note {pieceId : String} {notes news : List AudioNote}
    (h : start.Rekeyed platform uid pieceId client notes news)
    {new : AudioNote} (hnew : new ∈ news) : ∃ note ∈ notes, ∃ assetId recording,
      new = rekeyed uid assetId note ∧
        start.device.audioAssets.get note.audioAssetId = some recording ∧
          client.Resolves platform pieceId assetId recording := by
  induction h with
  | nil => cases hnew
  | cons hhead _ ih =>
    obtain rfl | hnew := List.mem_cons.mp hnew
    · exact ⟨_, List.mem_cons_self, hhead⟩
    · obtain ⟨note, hnote, hrekeyed⟩ := ih hnew
      exact ⟨note, List.mem_cons_of_mem _ hnote, hrekeyed⟩

/-- The batch of the slice of a piece completes it, whatever the slice was before. -/
theorem Partial.writeSlice (h : Partial platform uid start client)
    (hlocal : start.Migratable platform) (hpiece : piece ∈ start.device.pieces)
    (hdoc : client.HasDoc uid piece) {existing : List (DocPath × Fields)} {notes : List AudioNote}
    (hexisting : ∀ entry ∈ existing, (Query.notesBy piece.id uid).selects entry.1 entry.2 = true)
    (hnotes : start.Rekeyed platform uid piece.id client (start.ownNotes piece) notes) (rev : Int) (now : DateTime) :
    ∃ cloud, client.cloud.commit (sliceBatch piece.id uid (layerToFirestore ⟨uid, .owner,
        ownStrokes uid piece (start.localAnnotations piece), none⟩ rev now) existing notes) =
          .ok cloud ∧
      Partial platform uid start { client with cloud := cloud } ∧
        { client with cloud := cloud }.HasDoc uid piece ∧
          start.HasSlice platform uid piece { client with cloud := cloud } := by
  obtain ⟨cloud, hcommit, hlayer, hset, hkept⟩ := commit_sliceBatch client.cloud piece.id uid
    (layerToFirestore ⟨uid, .owner, ownStrokes uid piece (start.localAnnotations piece), none⟩ rev
      now) notes hexisting
  have hpath : ∀ entry ∈ existing, entry.1.OfPiece piece.id := by
    rintro ⟨path, fields⟩ hentry
    have hselects := hexisting _ hentry
    cases path <;> simp_all [Query.selects, DocPath.OfPiece]
  have hother : ∀ path : DocPath, ¬path.OfPiece piece.id →
      cloud.doc path = client.cloud.doc path := by
    intro path hnot
    rw [hkept path (fun heq => hnot (heq ▸ rfl)) fun note _ heq => hnot (heq ▸ rfl), if_neg]
    intro hmem
    obtain ⟨entry, hentry, rfl⟩ := List.mem_map.mp hmem
    exact hnot (hpath entry hentry)
  have hdoc' : { client with cloud := cloud }.HasDoc uid piece := by
    refine hdoc.of_doc ((hkept _ (by simp) (by simp)).trans (if_neg fun hmem => ?_))
    obtain ⟨⟨path, fields⟩, hentry, rfl⟩ := List.mem_map.mp hmem
    exact absurd (hexisting _ hentry) (by simp [Query.selects])
  have hslice : start.HasSlice platform uid piece { client with cloud := cloud } := by
    refine ⟨?_, fun note hnote => ?_, fun id hid => ?_⟩
    · simp only [layerStrokes, hlayer, strokesFromLayer_layerToFirestore]
    · -- the last note of the batch with this id is the one of this note
      obtain ⟨new, hnew, hid⟩ := hnotes.exists_new hnote
      obtain ⟨last, hlast, hlastId, hlastDoc⟩ := hset new hnew
      obtain ⟨note', hnote', assetId, recording, rfl, hsource, hput⟩ := hnotes.exists_note hlast
      obtain rfl : note' = note := List.inj_on_of_nodup_map (hlocal.noteIds piece hpiece) hnote'
        hnote (hlastId.trans hid)
      exact ⟨assetId, recording, hid ▸ hlastDoc, hsource, hput.stored, hput.queued⟩
    · have hnotSet : ∀ new ∈ notes, DocPath.notes piece.id id ≠ .notes piece.id new.id := by
        intro new hnew heq
        obtain ⟨note, hnote, assetId, recording, rfl, -⟩ := hnotes.exists_note hnew
        exact hid (List.mem_map.mpr ⟨note, hnote, (DocPath.notes.inj heq).2.symm⟩)
      have hold : client.cloud.doc (.notes piece.id id) = none := by
        obtain hnone | hslice := h.slices piece hpiece
        · exact hnone.notes id
        · exact hslice.noOther id hid
      exact (hkept _ (by simp) hnotSet).trans (by rw [hold, ite_self])
  have hrev : Firestore.nextRev (cloud.doc (.layers piece.id uid)) ≠ none := by
    rw [hlayer, Firestore.nextRev_layerToFirestore]
    simp
  exact ⟨cloud, hcommit, h.write hlocal hpiece hother hdoc' (.inr hslice) hrev fun _ => hslice,
    hdoc', hslice⟩

/-- What a pass has come to: it knows some assets, by piece, and has recorded some ids. -/
structure Reached (platform : Platform) (uid : String) (start : Client)
    (known : String → String → AudioAsset → Prop) (ids : List String) (client : Client) : Prop where
  state : Partial platform uid start client
  knows : ∀ pieceId id asset, known pieceId id asset → client.Resolves platform pieceId id asset
  ids : ids ⊆ client.migratedIds uid

variable {known : String → String → AudioAsset → Prop} {ids : List String}

theorem Reached.steady (h : Reached platform uid start known ids client)
    (hsteady : Steady start client client') : Reached platform uid start known ids client' := by
  refine ⟨h.state.steady hsteady, fun pieceId id asset hasset => ?_, ?_⟩
  · exact (h.knows pieceId id asset hasset).steady hsteady
  · rw [migratedIds, hsteady.migrated]
    exact h.ids

/-- One asset more. -/
def knowing (known : String → String → AudioAsset → Prop) (pieceId id : String)
    (asset : AudioAsset) (pieceId' id' : String) (asset' : AudioAsset) : Prop :=
  (pieceId' = pieceId ∧ id' = id ∧ asset' = asset) ∨ known pieceId' id' asset'

/-- An asset that is a recording may be remembered. -/
theorem Reached.learn (h : Reached platform uid start known ids client) {pieceId id : String}
    {asset : AudioAsset} (hput : client.Resolves platform pieceId id asset) :
    Reached platform uid start (knowing known pieceId id asset) ids client := by
  refine ⟨h.state, fun pieceId' id' asset' hknown => ?_, h.ids⟩
  obtain ⟨rfl, rfl, rfl⟩ | hold := hknown
  · exact hput
  · exact h.knows _ _ _ hold

theorem Reached.forget {pieceId id : String} {asset : AudioAsset}
    (h : Reached platform uid start (knowing known pieceId id asset) ids client) :
    Reached platform uid start known ids client :=
  ⟨h.state, fun _ _ _ hknown => h.knows _ _ _ (.inr hknown), h.ids⟩

/-- A change of the documents alone. -/
theorem Reached.setCloud (h : Reached platform uid start known ids client) {cloud : Cloud}
    (hstate : Partial platform uid start { client with cloud := cloud }) :
    Reached platform uid start known ids { client with cloud := cloud } :=
  ⟨hstate, fun _ _ _ hknown => ⟨(h.knows _ _ _ hknown).stored, (h.knows _ _ _ hknown).queued⟩, h.ids⟩

end Client

/-! ## The operations of a pass -/

section

open Firestore

variable {platform : Platform} {given : Given} {start client : Client} {piece : Piece}

/-- A change of the base paths, the counter, the objects, or of the queue that grows. -/
theorem steady_of_eq {client' : Client} (hcloud : client'.cloud = client.cloud)
    (hmigrated : client'.migrated = client.migrated) (hdevice : client'.device = client.device)
    (hqueue : client.uploadQueue ⊆ client'.uploadQueue) : Client.Steady start client client' :=
  ⟨hcloud, hmigrated, by rw [hdevice], fun _ => by rw [hdevice], fun _ _ => by rw [hdevice]; exact id,
    hqueue, fun _ _ => by rw [hdevice]⟩

/-- Staging a piece leaves the base PDFs alone when a copy of a file onto itself does. -/
theorem steady_copyFile (hcopy : ∀ content, platform.selfCopy content = content)
    (hlocal : start.Migratable platform) (hpiece : piece ∈ start.device.pieces) :
    Client.Steady start client ((ClientOperation.copyFile piece.basePdfPath
      (piecesPath platform.documentsDirectory piece.id piece.basePdfPath)).perform platform given
        client).2 := by
  cases hsource : client.device.files.get piece.basePdfPath with
  | none =>
    simp only [ClientOperation.perform, hsource]
    exact steady_of_eq rfl rfl rfl (List.Subset.refl _)
  | some content =>
    simp only [ClientOperation.perform, hsource, Client.copyFile, hcopy, ite_self]
    refine ⟨rfl, rfl, rfl, fun _ => rfl, fun _ _ => id, List.Subset.refl _, fun other hother => ?_⟩
    change Assoc.get (Assoc.set _ _ _) _ = _
    rw [Assoc.get_set]
    split_ifs with hdest
    · rw [hlocal.apart piece hpiece other hother hdest, hsource]
    · rfl

/-- A recording that is put under a new id. -/
theorem steady_copyAudio {id : String} (hnew : client.device.audioAssets.get id = none)
    (asset : AudioAsset) : Client.Steady start client
      ((ClientOperation.copyAudio asset id).perform platform given client).2 := by
  refine ⟨rfl, rfl, rfl, fun _ => rfl, fun id' asset' hasset' => ?_, List.Subset.refl _,
    fun _ _ => rfl⟩
  change Assoc.get (Assoc.set _ _ _) _ = _
  rw [Assoc.get_set_of_ne]
  · exact hasset'
  · rintro rfl
    rw [hnew] at hasset'
    cases hasset'

/-- Neither a recording nor a queued upload has the id. -/
def Client.Unused (client : Client) (id : String) : Prop :=
  client.device.audioAssets.get id = none ∧ ∀ task ∈ client.uploadQueue, task.assetId ≠ id

instance (client : Client) (id : String) : Decidable (client.Unused id) :=
  inferInstanceAs (Decidable (_ ∧ _))

/-- A recording gets an id that nothing has. -/
def NewId (given : Given) (_ : Fate CloudFailure) (o : ClientOperation) (client : Client) : Prop :=
  o = .nextAudioId → client.Unused (audioId given.now client.audioSeq)

/-- The operation generates an id for a recording. -/
def AsksAudioId : ClientOperation → Bool
  | .nextAudioId => true
  | _ => false

theorem asksAudioId_iff {o : ClientOperation} : AsksAudioId o = true ↔ o = .nextAudioId := by
  cases o <;> simp [AsksAudioId]

instance (given : Given) (fate : Fate CloudFailure) (o : ClientOperation) (client : Client) :
    Decidable (NewId given fate o client) :=
  decidable_of_iff (AsksAudioId o = true → client.Unused (audioId given.now client.audioSeq))
    (imp_congr asksAudioId_iff .rfl)

/-- What may happen to an operation; it is performed unless there are faults. -/
def PassMay (faults : Prop) (given : Given) (fate : Fate CloudFailure) (o : ClientOperation)
    (client : Client) : Prop :=
  NewId given fate o client ∧ (fate ≠ .performed → faults)

/-- What a pass's operation may respond and leave. -/
abbrev PassNext (platform : Platform) (faults : Prop) :=
  Faulty (ClientOperation.perform platform) (PassMay faults)

/-- A part of a pass that stays in `A`, and ends in `B` unless there are faults. -/
abbrev Succeeds {α : Type} (platform : Platform) (faults : Prop) (A : Client → Prop)
    (p : ClientProgram α) (B : α → Client → Prop) (client : Client) : Prop :=
  Upholds (PassNext platform faults) A p B (fun _ => faults) client

variable {uid : String} {known : String → String → AudioAsset → Prop} {ids : List String}
  {faults : Prop} {α : Type} {A : Client → Prop}

/-- An operation that is performed unless there are faults. -/
theorem succeeds_ask {o : ClientOperation} {B : o.Response → Client → Prop} (hA : A client)
    (heffect : ∀ given, NewId given .performed o client → A (o.perform platform given client).2 ∧
      EndsIn B (fun _ => faults) (o.perform platform given client).1
        (o.perform platform given client).2) :
    Succeeds platform faults A (ask o) B client :=
  .ask hA (fun given _ hmay => heffect given hmay.1) fun _ _ _ hmay hfate => hmay.2 hfate

/-- An operation that reads a value off the client. -/
theorem succeeds_read {o : ClientOperation} {a : Given → o.Response} (hA : A client)
    (hread : ∀ given, o.perform platform given client = (.ok (a given), client)) :
    Succeeds platform faults A (ask o) (fun r t => t = client ∧ ∃ given, r = a given) client :=
  .ask_read hA hread fun _ _ _ hmay hfate => hmay.2 hfate

/-! ### The document of a piece -/

/-- A pass that has come to a state, with the document of a piece. -/
def ReachedDoc (platform : Platform) (uid : String) (start : Client)
    (known : String → String → AudioAsset → Prop) (ids : List String) (piece : Piece)
    (client : Client) : Prop :=
  Client.Reached platform uid start known ids client ∧ client.HasDoc uid piece

/-- Whether a document can be decoded does not depend on where the PDF is. -/
theorem exists_pieceFromFirestore {id : String} {data : Fields} {path : String} {read : Piece}
    (h : pieceFromFirestore id data path = some read) (path' : String) :
    ∃ read', pieceFromFirestore id data path' = some read' := by
  simp only [pieceFromFirestore, Option.bind_eq_bind, Option.bind_eq_some_iff] at h ⊢
  obtain ⟨title, htitle, sum, hsum, ownerId, howner, ownerName, hname, collaborators, hcollaborators,
    createdAt, hcreated, updatedAt, hupdated, -⟩ := h
  exact ⟨_, title, htitle, sum, hsum, ownerId, howner, ownerName, hname, collaborators,
    hcollaborators, createdAt, hcreated, updatedAt, hupdated, rfl⟩

/-- A piece that a pass can read has been migrated by an earlier one; without faults, one that it
cannot read is missing. -/
theorem upholds_getPiece (h : Client.Reached platform uid start known ids client)
    (hpiece : piece ∈ start.device.pieces) :
    Upholds (PassNext platform faults) (Client.Reached platform uid start known ids)
      (getPiece piece.id) (fun _ t => t.HasDoc uid piece)
      (fun t => faults ∨ t.cloud.doc (.pieces piece.id) = none) client := by
  refine upholds_guarding ((upholds_getDoc (fun _ _ _ _ _ hmay hfate => .inl (hmay.2 hfate)) h).bind
    ?_)
  rintro data t - ⟨rfl, rfl⟩
  have hpath : Upholds (PassNext platform faults) (Client.Reached platform uid start known ids)
      (basePathFor piece.id) (fun _ u => u = t)
      (fun u => faults ∨ u.cloud.doc (.pieces piece.id) = none) t := by
    have hread : Upholds (PassNext platform faults)
        (Client.Reached platform uid start known ids) (ask .readBasePaths)
        (fun r u => u = t ∧ ∃ _ : Given, r = t.basePaths)
        (fun u => faults ∨ u.cloud.doc (.pieces piece.id) = none) t :=
      .ask_read h (fun _ => rfl) fun _ _ _ hmay hfate => .inl (hmay.2 hfate)
    refine hread.bind ?_
    rintro paths u - ⟨rfl, -⟩
    exact .done h rfl
  refine hpath.bind ?_
  rintro basePdfPath u - rfl
  obtain hnone | hdoc := h.state.docs piece hpiece
  · rw [hnone]
    exact .fail h (.inr hnone)
  · obtain ⟨fields, now, hfields, hread⟩ := id hdoc
    obtain ⟨read, hread⟩ := exists_pieceFromFirestore hread basePdfPath
    rw [hfields, pieceFrom, hread]
    exact .done h hdoc

/-- Staging a piece finds the checksum that its base PDF has. -/
theorem succeeds_stageLocally (hcopy : ∀ content, platform.selfCopy content = content)
    (hlocal : start.Migratable platform) (hpiece : piece ∈ start.device.pieces)
    (h : Client.Reached platform uid start known ids client) :
    Succeeds platform faults (Client.Reached platform uid start known ids)
      (stageLocally platform piece.id piece.basePdfPath)
      (fun staged _ => staged.1 = piece.basePdfChecksum) client := by
  obtain ⟨content, hcontent, hsum⟩ := h.state.stored piece hpiece
  refine (succeeds_read (o := .checksum piece.basePdfPath) (a := fun _ => piece.basePdfChecksum) h
    fun given => ?_).bind ?_
  · simp only [ClientOperation.perform, hcontent, hsum]
  rintro checksum t - ⟨rfl, -, rfl⟩
  refine Upholds.bind (B := fun _ _ => True) (succeeds_ask h fun given _ =>
    ⟨h.steady (steady_copyFile hcopy hlocal hpiece), ?_⟩) fun _ u hu _ => .done hu rfl
  simp only [ClientOperation.perform, hcontent]
  trivial

theorem succeeds_recordBasePath (h : Client.Reached platform uid start known ids client)
    (pieceId path : String) :
    Succeeds platform faults (Client.Reached platform uid start known ids)
      (recordBasePath pieceId path) (fun _ _ => True) client := by
  refine (succeeds_read (o := .readBasePaths) (a := fun _ => client.basePaths) h fun _ => rfl).bind ?_
  rintro paths t - ⟨rfl, -⟩
  exact succeeds_ask h fun given _ =>
    ⟨h.steady (steady_of_eq rfl rfl rfl (List.Subset.refl _)), trivial⟩

/-- A pass that creates the document of a piece. -/
theorem succeeds_createPiece (hlocal : start.Migratable platform)
    (hpiece : piece ∈ start.device.pieces)
    (h : Client.Reached platform uid start known ids client) {staged : String × String}
    (hstaged : staged.1 = piece.basePdfChecksum) :
    Succeeds platform faults (Client.Reached platform uid start known ids)
      (createPiece piece.id piece.title uid piece.ownerName [] staged)
      (fun _ t => t.HasDoc uid piece) client := by
  refine (succeeds_read (o := .now) (a := fun given => given.now) h fun _ => rfl).bind ?_
  rintro now t - ⟨rfl, -⟩
  have hread : pieceFromFirestore piece.id (pieceToFirestore ⟨piece.id, piece.title, staged.1,
      staged.2, uid, piece.ownerName, [], now, now⟩) "" = some { piece with
        basePdfPath := "", ownerId := uid, collaborators := [], createdAt := now,
        updatedAt := now } := by
    rw [hstaged]
    exact pieceFromFirestore_pieceToFirestore ⟨piece.id, piece.title, piece.basePdfChecksum,
      staged.2, uid, piece.ownerName, [], now, now⟩ ""
  obtain ⟨hstate, hdoc⟩ := h.state.writeDoc hlocal hpiece hread
  exact (upholds_commit (fun _ _ _ _ _ hmay hfate => hmay.2 hfate) (Cloud.commit_set _ _ _) h
    (h.setCloud hstate) hdoc).bind fun _ u hu hdoc => .done hu hdoc

theorem succeeds_registerImportedPiece (hcopy : ∀ content, platform.selfCopy content = content)
    (hlocal : start.Migratable platform) (hpiece : piece ∈ start.device.pieces)
    (h : Client.Reached platform uid start known ids client)
    (hmissing : faults ∨ client.cloud.doc (.pieces piece.id) = none) :
    Succeeds platform faults (Client.Reached platform uid start known ids)
      (Firestore.registerImportedPiece platform piece.id piece.title uid piece.basePdfPath none
        piece.ownerName none) (fun _ t => t.HasDoc uid piece) client := by
  refine upholds_guarding ((upholds_getDoc (fun _ _ _ _ _ hmay hfate => hmay.2 hfate) h).bind ?_)
  rintro data t - ⟨rfl, rfl⟩
  split_ifs with hthere
  · refine .fail h (hmissing.resolve_right fun hnone => ?_)
    rw [hnone] at hthere
    cases hthere
  refine (succeeds_stageLocally hcopy hlocal hpiece h).bind fun staged u hu hstaged => ?_
  refine (succeeds_recordBasePath hu _ _).bind fun _ v hv _ => ?_
  exact succeeds_createPiece hlocal hpiece hv hstaged

/-- However it goes on, the document is there. -/
theorem succeeds_ensureDoc (hcopy : ∀ content, platform.selfCopy content = content)
    (hlocal : start.Migratable platform) (hpiece : piece ∈ start.device.pieces)
    (h : Client.Reached platform uid start known ids client) :
    Succeeds platform faults (Client.Reached platform uid start known ids)
      (ensureDoc uid piece platform) (fun _ t => t.HasDoc uid piece) client := by
  refine (upholds_getPiece h hpiece).attempt.bind fun outcome t ht hends => ?_
  cases outcome with
  | ok read => exact .done ht hends
  | error e =>
    exact (succeeds_registerImportedPiece hcopy hlocal hpiece ht hends).bind fun _ u hu hdoc =>
      .done hu hdoc

/-! ### The base PDF -/

theorem ReachedDoc.steady {client' : Client}
    (h : ReachedDoc platform uid start known ids piece client)
    (hsteady : Client.Steady start client client') :
    ReachedDoc platform uid start known ids piece client' :=
  ⟨h.1.steady hsteady, h.2.steady hsteady⟩

/-- The mark that the base PDF is uploaded is not part of the piece. -/
theorem pieceFromFirestore_set_uploaded (id : String) (data : Fields) (value : Value)
    (basePdfPath : String) : pieceFromFirestore id (Assoc.set data "basePdfUploaded" value)
      basePdfPath = pieceFromFirestore id data basePdfPath := by
  simp [pieceFromFirestore, Fields.read_set]

theorem succeeds_markUploaded (hlocal : start.Migratable platform)
    (hpiece : piece ∈ start.device.pieces)
    (h : ReachedDoc platform uid start known ids piece client) :
    Succeeds platform faults (ReachedDoc platform uid start known ids piece)
      (markUploaded piece.id) (fun _ _ => True) client := by
  obtain ⟨data, now, hdata, hread⟩ := h.2
  have hresult : Write.result (.merge (.pieces piece.id)
      (Assoc.ofList [("basePdfUploaded", .bool true)])) (client.cloud.doc (.pieces piece.id)) =
        .ok (some (Assoc.set data "basePdfUploaded" (.bool true))) := by
    rw [hdata]
    rfl
  obtain ⟨hstate, hdoc⟩ := h.1.state.writeDoc hlocal hpiece
    ((pieceFromFirestore_set_uploaded piece.id data (.bool true) "").trans hread)
  exact upholds_commit (fun _ _ _ _ _ hmay hfate => hmay.2 hfate)
    (Cloud.commit_singleton.mpr ⟨_, hresult, rfl⟩) h ⟨h.1.setCloud hstate, hdoc⟩ trivial

theorem succeeds_uploadBasePdf (hlocal : start.Migratable platform)
    (hpiece : piece ∈ start.device.pieces)
    (h : ReachedDoc platform uid start known ids piece client) :
    Succeeds platform faults (ReachedDoc platform uid start known ids piece)
      (uploadBasePdf piece.id piece.basePdfPath piece.basePdfChecksum) (fun _ _ => True)
      client := by
  have hstored : Succeeds platform faults (ReachedDoc platform uid start known ids piece)
      (alreadyStored piece.id piece.basePdfChecksum) (fun _ t => t = client) client := by
    refine (succeeds_read (o := .pdfChecksum piece.id)
      (a := fun _ => (client.basePdfs.get piece.id).map (·.checksum)) h fun _ => rfl).bind ?_
    rintro stored t - ⟨rfl, -⟩
    exact .done h rfl
  refine hstored.bind ?_
  rintro stored t - rfl
  split_ifs
  · exact succeeds_markUploaded hlocal hpiece h
  obtain ⟨content, hcontent, -⟩ := h.1.state.stored piece hpiece
  refine Upholds.bind (B := fun _ _ => True) (succeeds_ask h fun given _ => ?_)
    fun _ u hu _ => succeeds_markUploaded hlocal hpiece hu
  simp only [ClientOperation.perform, hcontent]
  exact ⟨h.steady (steady_of_eq rfl rfl rfl (List.Subset.refl _)), trivial⟩

/-! ### The notes -/

/-- A recording that is put resolves under the id that is returned. -/
theorem succeeds_putAudio (h : ReachedDoc platform uid start known ids piece client)
    (asset : AudioAsset) :
    Succeeds platform faults (ReachedDoc platform uid start known ids piece)
      (Firestore.putAudio platform asset piece.id)
      (fun id t => t.Resolves platform piece.id id asset) client := by
  have hnext : Succeeds platform faults (ReachedDoc platform uid start known ids piece)
      (ask .nextAudioId) (fun id t => t.Unused id) client := by
    refine succeeds_ask h fun given hnew => ⟨?_, hnew rfl⟩
    exact h.steady (steady_of_eq rfl rfl rfl (List.Subset.refl _))
  refine hnext.bind fun id t ht hunused => ?_
  have hcopied : Succeeds platform faults (ReachedDoc platform uid start known ids piece)
      (ask (.copyAudio asset id)) (fun _ u => u.device.audioAssets.get id = some asset ∧
        ∀ task ∈ u.uploadQueue, task.assetId ≠ id) t :=
    succeeds_ask ht fun _ _ => ⟨ht.steady (steady_copyAudio hunused.1 asset),
      Assoc.get_set_self _ _ _, hunused.2⟩
  refine hcopied.bind fun _ u hu ⟨hput, hnotQueued⟩ => ?_
  have hqueued : Succeeds platform faults (ReachedDoc platform uid start known ids piece)
      (ask (.enqueueUpload ⟨piece.id, id, audioPath platform.documentsDirectory id asset.extension,
        0⟩)) (fun _ v => v.Resolves platform piece.id id asset) u := by
    refine succeeds_ask hu fun given _ => ?_
    have hany : (u.uploadQueue.any fun task => task.assetId == id) = false :=
      List.any_eq_false.mpr fun task htask => ne_true_of_eq_false (beq_false_of_ne (hnotQueued task htask))
    simp only [ClientOperation.perform, hany, Bool.false_eq_true, if_false]
    exact ⟨hu.steady (steady_of_eq rfl rfl rfl (List.subset_append_left _ _)), hput,
      List.mem_append_right _ (List.mem_singleton_self _)⟩
  exact hqueued.bind fun _ v hv hresolves => .done hv hresolves

/-- The notes that are returned are the owner's, each with its recording. -/
theorem succeeds_migrateNotes (hlocal : start.Migratable platform)
    (hpiece : piece ∈ start.device.pieces) (notes : List AudioNote)
    (hnotes : ∀ note ∈ notes, note.authorId = piece.ownerId → note ∈ start.ownNotes piece)
    (h : ReachedDoc platform uid start known ids piece client) :
    Succeeds platform faults (ReachedDoc platform uid start known ids piece)
      (migrateNotes uid piece platform notes) (fun news t => start.Rekeyed platform uid piece.id t
        (notes.filter fun note => note.authorId == piece.ownerId) news) client := by
  induction notes generalizing known client with
  | nil => exact .done h .nil
  | cons note rest ih =>
    have hrest : ∀ note ∈ rest, note.authorId = piece.ownerId → note ∈ start.ownNotes piece :=
      fun note hnote => hnotes note (List.mem_cons_of_mem _ hnote)
    rw [migrateNotes]
    split_ifs with hauthor
    · rw [List.filter_cons_of_neg (by simpa using hauthor)]
      exact ih hrest h
    rw [not_not] at hauthor
    rw [List.filter_cons_of_pos (by simpa using hauthor)]
    obtain ⟨recording, hrecording⟩ :=
      hlocal.recordings piece hpiece note (hnotes note (by simp) hauthor)
    have hthere := h.1.state.keeps.recordings _ _ hrecording
    refine (succeeds_read (o := .localAudio note.audioAssetId) (a := fun _ => recording) h
      fun given => ?_).bind ?_
    · simp only [ClientOperation.perform, hthere]
    rintro source t ht ⟨rfl, -, rfl⟩
    refine (succeeds_putAudio ht source).bind fun assetId u hu hput => ?_
    -- the asset is known to what follows, which therefore keeps it
    have hknown : ReachedDoc platform uid start (Client.knowing known piece.id assetId source) ids
        piece u := ⟨hu.1.learn hput, hu.2⟩
    refine Upholds.bind (B := fun news v => start.Rekeyed platform uid piece.id v
      (note :: rest.filter fun note => note.authorId == piece.ownerId)
        (rekeyed uid assetId note :: news)) ((ih hrest hknown).mono (fun v hv => ?_)
          (fun news v hv hnews => ?_) fun _ _ hfaults => hfaults) fun news v hv hnews => .done hv hnews
    · exact ⟨hv.1.forget, hv.2⟩
    · exact .cons ⟨assetId, source, rfl, hrecording, hv.1.knows _ _ _ (.inl ⟨rfl, rfl, rfl⟩)⟩ hnews

/-! ### The slice -/

theorem succeeds_replaceAuthorSlice (hlocal : start.Migratable platform)
    (hpiece : piece ∈ start.device.pieces)
    (h : ReachedDoc platform uid start known ids piece client) {notes : List AudioNote}
    (hnotes : start.Rekeyed platform uid piece.id client (start.ownNotes piece) notes)
    (now : DateTime) :
    Succeeds platform faults (ReachedDoc platform uid start known ids piece)
      (onFirestore (Firestore.replaceAuthorSlice now piece.id uid .owner
        (ownStrokes uid piece (start.localAnnotations piece)) notes))
      (fun _ t => start.HasSlice platform uid piece t) client := by
  rw [Firestore.replaceAuthorSlice, onFirestore_bind]
  refine (upholds_getDoc (fun _ _ _ _ _ hmay hfate => hmay.2 hfate) h).bind ?_
  rintro previous t - ⟨rfl, rfl⟩
  rw [onFirestore_bind]
  refine (upholds_listDocs (fun _ _ _ _ _ hmay hfate => hmay.2 hfate) h).bind ?_
  rintro existing u - ⟨rfl, rfl⟩
  cases hrev : nextRev (u.cloud.doc (.layers piece.id uid)) with
  | none => exact absurd hrev (h.1.state.revs piece hpiece)
  | some rev =>
    have hexisting : ∀ entry ∈ u.cloud.list (.notesBy piece.id uid),
        (Query.notesBy piece.id uid).selects entry.1 entry.2 = true :=
      fun entry hentry => (Cloud.mem_list.mp hentry).2
    obtain ⟨cloud, hcommit, hstate, hdoc, hslice⟩ :=
      h.1.state.writeSlice hlocal hpiece h.2 hexisting hnotes rev now
    exact upholds_commit (fun _ _ _ _ _ hmay hfate => hmay.2 hfate) hcommit h
      ⟨h.1.setCloud hstate, hdoc⟩ hslice

/-- However a pass finds the slice of a piece, it leaves it complete. -/
theorem succeeds_migrateSlice (hlocal : start.Migratable platform)
    (hpiece : piece ∈ start.device.pieces)
    (h : ReachedDoc platform uid start known ids piece client) :
    Succeeds platform faults (ReachedDoc platform uid start known ids piece)
      (migrateSlice uid piece platform) (fun _ t => start.HasSlice platform uid piece t)
      client := by
  have hsame : (client.device.annotationsFor piece.id).withoutTombstones =
      start.localAnnotations piece :=
    congrArg PieceAnnotations.withoutTombstones (h.1.state.keeps.annotations piece.id)
  refine (succeeds_read (o := .watchAnnotations piece.id)
    (a := fun _ => start.localAnnotations piece) h fun given => ?_).bind ?_
  · simp only [ClientOperation.perform, hsame]
  rintro annotations t - ⟨rfl, -, rfl⟩
  have howns : ∀ note ∈ (start.localAnnotations piece).audioNotes, note.authorId = piece.ownerId →
      note ∈ start.ownNotes piece := by
    intro note hnote hauthor
    exact List.mem_filter.mpr ⟨hnote, by simpa using hauthor⟩
  refine (succeeds_migrateNotes hlocal hpiece _ howns h).bind fun news u hu hnews => ?_
  split_ifs with hany
  · refine upholds_guarding ((succeeds_read (o := .now) (a := fun given => given.now) hu
      fun _ => rfl).bind ?_)
    rintro now v - ⟨rfl, -⟩
    exact succeeds_replaceAuthorSlice hlocal hpiece hu hnews now
  · -- nothing of the owner's: an unwritten slice is the complete one
    rw [not_or, not_not, not_not] at hany
    obtain ⟨hstrokes, rfl⟩ := hany
    have hnone : start.ownNotes piece = [] := List.forall₂_nil_right_iff.mp hnews
    refine .done hu ?_
    obtain hempty | hslice := hu.1.state.slices piece hpiece
    · refine ⟨?_, ?_, fun id _ => hempty.notes id⟩
      · rw [Client.layerStrokes, hempty.layer, hstrokes]
      · rw [hnone]
        simp
    · exact hslice

/-- Migrating a piece keeps what passes can leave, and completes the piece unless there are faults. -/
theorem succeeds_migrateOne (hcopy : ∀ content, platform.selfCopy content = content)
    (hlocal : start.Migratable platform) (hpiece : piece ∈ start.device.pieces)
    (h : Client.Reached platform uid start known ids client) :
    Succeeds platform faults (Client.Reached platform uid start known ids)
      (migrateOne uid piece platform)
      (fun _ t => t.HasDoc uid piece ∧ start.HasSlice platform uid piece t) client := by
  refine (succeeds_ensureDoc hcopy hlocal hpiece h).bind fun _ t ht hdoc => ?_
  have hrest : Succeeds platform faults (ReachedDoc platform uid start known ids piece)
      (do uploadBasePdf piece.id piece.basePdfPath piece.basePdfChecksum
          migrateSlice uid piece platform) (fun _ t => start.HasSlice platform uid piece t) t :=
    (succeeds_uploadBasePdf hlocal hpiece ⟨ht, hdoc⟩).bind fun _ u hu _ =>
      succeeds_migrateSlice hlocal hpiece hu
  exact hrest.mono (fun u hu => hu.1) (fun _ u hu hslice => ⟨hu.2, hslice⟩) fun _ _ hfaults => hfaults

end

/-! ## Passes -/

namespace Client

variable {platform : Platform} {uid : String} {start client : Client}

theorem Partial.of_unmigrated (hlocal : start.Migratable platform) (h : start.Unmigrated uid) :
    Partial platform uid start start where
  keeps := ⟨rfl, fun _ => rfl, fun _ _ => id⟩
  stored := hlocal.stored
  docs piece hpiece := .inl (h.docs piece hpiece)
  slices piece hpiece := .inl (h.slices piece hpiece)
  revs piece hpiece := by simp [(h.slices piece hpiece).layer, Firestore.nextRev]
  recorded piece hpiece hid := absurd hid (h.recorded piece hpiece)
  elsewhere _ _ := rfl

/-- Passes have come to a state that they can leave, and know nothing more of it. -/
theorem Partial.reached (h : Partial platform uid start client) :
    Reached platform uid start (fun _ _ _ => False) [] client :=
  ⟨h, fun _ _ _ hknown => hknown.elim, List.nil_subset _⟩

/-- A piece that is complete may be recorded. -/
theorem Reached.record {known : String → String → AudioAsset → Prop} {ids : List String}
    {piece : Piece} (h : Reached platform uid start known ids client)
    (hlocal : start.Migratable platform) (hpiece : piece ∈ start.device.pieces)
    (hdoc : client.HasDoc uid piece) (hslice : start.HasSlice platform uid piece client) :
    Reached platform uid start known (piece.id :: ids) (recorded client uid piece.id) := by
  have hkeep : ∀ other, start.HasSlice platform uid other client →
      start.HasSlice platform uid other (recorded client uid piece.id) := fun other hold =>
    hold.of_docs rfl (fun _ => rfl) fun _ _ hput => ⟨hput.stored, hput.queued⟩
  refine ⟨⟨⟨h.state.keeps.pieces, h.state.keeps.annotations, h.state.keeps.recordings⟩,
    h.state.stored, h.state.docs, fun other hmem => ?_, h.state.revs, fun other hmem hid => ?_,
    h.state.elsewhere⟩, fun _ _ _ hknown => ?_, fun id hid => ?_⟩
  · exact (h.state.slices other hmem).imp (fun hnone => ⟨hnone.layer, hnone.notes⟩) (hkeep other)
  · have hall : client.HasDoc uid other ∧ start.HasSlice platform uid other client := by
      obtain heq | hold := mem_migratedIds_recorded.mp hid
      · rw [List.inj_on_of_nodup_map hlocal.ids hmem hpiece heq]
        exact ⟨hdoc, hslice⟩
      · exact h.state.recorded other hmem hold
    exact ⟨hall.1, hkeep other hall.2⟩
  · exact ⟨(h.knows _ _ _ hknown).stored, (h.knows _ _ _ hknown).queued⟩
  · rw [mem_migratedIds_recorded]
    exact (List.mem_cons.mp hid).imp_right fun hold => h.ids hold

theorem Partial.converged (h : Partial platform uid start client)
    (hrecorded : ∀ piece ∈ start.device.pieces, piece.id ∈ client.migratedIds uid) :
    start.Converged platform uid client where
  docs piece hpiece := (h.recorded piece hpiece (hrecorded piece hpiece)).1
  slices piece hpiece := (h.recorded piece hpiece (hrecorded piece hpiece)).2
  recorded := hrecorded
  elsewhere := h.elsewhere

end Client

section

variable {platform : Platform} {uid : String} {start client : Client} {faults : Prop}

/-- From every state that passes leave, a pass in which no piece fails converges, and without faults
no piece fails. -/
theorem succeeds_migrate (hcopy : ∀ content, platform.selfCopy content = content)
    (hlocal : start.Migratable platform) (h : Client.Partial platform uid start client) :
    Succeeds platform faults (Client.Partial platform uid start) (migrate uid platform)
      (fun r t => (¬faults → r.failed = 0) ∧ (r.failed = 0 → start.Converged platform uid t))
      client := by
  have hpieces := h.keeps.pieces
  refine (succeeds_read (o := .readMigrated uid) (a := fun _ => client.migratedIds uid) h
    fun _ => rfl).bind ?_
  rintro migrated t - ⟨rfl, -, rfl⟩
  refine (succeeds_read (o := .storedPieces) (a := fun _ => t.device.pieces) h
    fun _ => rfl).bind ?_
  rintro stored u - ⟨rfl, -, rfl⟩
  refine Upholds.mono (upholds_migrateEach
    (fun ids => Client.Reached platform uid start (fun _ _ _ => False) ids)
    (fun piece v => v.HasDoc uid piece ∧ start.HasSlice platform uid piece v) faults
    (fun ids v hv => hv.state.reached) (u.migratedIds uid) ?_ ?_
    (fun piece hpiece => hpieces ▸ hpiece) ⟨0, 0⟩ (u.migratedIds uid)
    ⟨h, fun _ _ _ hknown => hknown.elim, List.Subset.refl _⟩) (fun v hv => hv.state) ?_
    fun _ _ hfaults => hfaults
  · intro piece hpiece _ ids v hv
    exact (succeeds_migrateOne hcopy hlocal hpiece hv).mono (fun w hw => hw.state.reached)
      (fun _ w hw hready => ⟨hw, hready⟩) fun w hw hfaults => ⟨hw, hfaults⟩
  · intro piece hpiece ids v hv hready
    refine (upholds_markMigrated id (fun _ _ _ => rfl) (fun _ _ _ _ hmay hfate => hmay.2 hfate)
      (Client.Reached platform uid start (fun _ _ _ => False) ids)
      (Client.Reached platform uid start (fun _ _ _ => False) (piece.id :: ids)) ?_ hv
      (hv.record hlocal hpiece hready.1 hready.2)).mono (fun w hw => hw.state.reached)
      (fun _ w _ hw => hw) fun _ _ hfaults => hfaults
    intro w hw
    exact ⟨hw.state, hw.knows, List.Subset.trans (List.subset_cons_self _ _) hw.ids⟩
  · rintro r v - ⟨-, hclean, hids⟩
    refine ⟨hclean, fun hfailed => ?_⟩
    obtain ⟨ids', hids', hsub, hmem⟩ := hids hfailed
    refine hids'.state.converged fun piece hpiece => hids'.ids ?_
    obtain hold | hnew := List.mem_append.mp (hmem piece (hpieces ▸ hpiece))
    · exact hsub hold
    · exact hnew

/-- A pass that finds every piece recorded changes nothing. -/
theorem always_migrate_recorded {I : Client → Prop} (hI : I client)
    (h : ∀ piece ∈ client.device.pieces, piece.id ∈ client.migratedIds uid) :
    (migrate uid platform).Always (Faulty (ClientOperation.perform platform) AnyFateOf) I
      (fun _ _ => True) client := by
  refine .bind (.ask_read hI (fun _ => rfl) ?_ fun _ => trivial)
  refine .bind (.ask_read hI (fun _ => rfl) ?_ fun _ => trivial)
  have hdone : ∀ pieces : List Piece, (∀ piece ∈ pieces, piece.id ∈ client.migratedIds uid) →
      migrateEach uid platform (client.migratedIds uid) pieces ⟨0, 0⟩ = done ⟨0, 0⟩ := by
    intro pieces hpieces
    induction pieces with
    | nil => rfl
    | cons piece rest ih =>
      rw [migrateEach, if_pos (List.contains_iff_mem.mpr (hpieces piece (by simp)))]
      exact ih fun p hp => hpieces p (List.mem_cons_of_mem _ hp)
  change Program.Always _ _ (migrateEach uid platform (client.migratedIds uid)
    client.device.pieces ⟨0, 0⟩) _ _
  rw [hdone _ h]
  trivial

end

namespace Migration

variable {platform : Platform} {uid : String} {start : Client} {m : Migration}

/-- A pass whose `n` operations are performed. -/
def cleanPass (given : Nat → Given) (n : Nat) : List MigrationEvent := .begin :: performing given n

/-- What passes leave, whatever becomes of them. -/
theorem partial_of_run (hcopy : ∀ content, platform.selfCopy content = content)
    (hlocal : start.Migratable platform) (hstart : start.Unmigrated uid)
    {events : List MigrationEvent}
    (hids : EachStep (Migration.step platform uid) (Process.Allowed NewId) (.idle start) events)
    (hrun : run (Migration.step platform uid) (.idle start) events = some m) :
    Client.Partial platform uid start m.state := by
  have hkeeps : m.Keeps (PassNext platform True) (Client.Partial platform uid start)
      fun _ _ => True := by
    refine run_invariant (fun p event t hp he hstep => ?_)
      (Process.keeps_idle (.of_unmigrated hlocal hstart)) hids hrun
    refine Process.keeps_step (fun _ => ?_) (fun s hs => ?_) hp ?_ hstep
    · exact Always.mono (succeeds_migrate hcopy hlocal hp.state) (fun _ h => h)
        fun _ _ _ => trivial
    · exact hs.steady (steady_of_eq rfl rfl rfl (List.Subset.refl _))
    · cases event with
      | advance given fate => exact fun o ho => ⟨he o ho, fun _ => trivial⟩
      | _ => trivial
  exact hkeeps.state

/-- From a state that passes leave, a pass in which nothing fails succeeds. -/
theorem converged_of_cleanPass (hcopy : ∀ content, platform.selfCopy content = content)
    (hlocal : start.Migratable platform) (h : Client.Partial platform uid start m.state)
    {given : Nat → Given} {n : Nat} {t : Migration}
    (hids : EachStep (Migration.step platform uid) (Process.Allowed NewId) m (cleanPass given n))
    (hrun : run (Migration.step platform uid) m (cleanPass given n) = some t)
    (hended : t.running = none) :
    (∃ result, t.outcome = some (.ok result) ∧ result.failed = 0) ∧
      start.Converged platform uid t.state ∧ Client.Partial platform uid start t.state := by
  obtain ⟨begun, hbegin, hrest⟩ := run_cons_eq_some.mp hrun
  have hbegun := (Process.begin_step.mp hbegin).2
  have houtcome : t.running = none → t.outcome ≠ none :=
    Process.outcome_run_performing (hbegun ▸ hrest)
  have hperformed : EachStep (Migration.step platform uid)
      (fun _ e => ∀ given fate, e = .advance given fate → fate = .performed) begun
        (performing given n) := by
    refine .of_forall fun e he _ => ?_
    obtain ⟨i, -, rfl⟩ := List.mem_map.mp he
    rintro _ _ ⟨⟩
    rfl
  have hkeeps : t.Keeps (PassNext platform False) (Client.Partial platform uid start)
      (fun outcome u => Client.Partial platform uid start u ∧ EndsIn
        (fun r u => (¬False → r.failed = 0) ∧ (r.failed = 0 → start.Converged platform uid u))
        (fun _ => False) outcome u) := by
    refine run_invariant (fun p event u hp he hstep => ?_) ?_ ((hids.2 begun hbegin).and hperformed)
      hrest
    · refine Process.keeps_step (fun _ => ?_) (fun s hs => ?_) hp ?_ hstep
      · exact succeeds_migrate hcopy hlocal hp.state
      · exact hs.steady (steady_of_eq rfl rfl rfl (List.Subset.refl _))
      · cases event with
        | advance given fate => exact fun o ho => ⟨he.1 o ho, absurd (he.2 given fate rfl)⟩
        | _ => trivial
    · obtain ⟨-, rfl⟩ := Process.begin_step.mp hbegin
      exact Process.keeps_resume h (succeeds_migrate hcopy hlocal h)
  obtain ⟨outcome, houtcome⟩ := Option.ne_none_iff_exists'.mp (houtcome hended)
  obtain ⟨hunfinished, hends⟩ := hkeeps.outcome outcome houtcome
  cases outcome with
  | error e => exact hends.elim
  | ok result =>
    have hfailed := hends.1 not_false
    exact ⟨⟨result, houtcome, hfailed⟩, hends.2 hfailed, hunfinished⟩

/-- Passes after all pieces have been recorded write nothing. -/
theorem restart_of_recorded {t u : Migration} (hidle : t.running = none)
    (hrecorded : ∀ piece ∈ t.state.device.pieces, piece.id ∈ t.state.migratedIds uid)
    {more : List MigrationEvent} (hmore : run (Migration.step platform uid) t more = some u) :
    u.state.restart = t.state.restart := by
  have hsame : u.Keeps (Faulty (ClientOperation.perform platform) AnyFateOf)
      (fun s => s.restart = t.state.restart) fun _ _ => True := by
    refine run_invariant' (fun p event v hp hstep => ?_) ⟨rfl, ?_, fun _ _ => trivial⟩ hmore
    · refine Process.keeps_step (fun _ => ?_) ?_ hp ?_ hstep
      · -- the state is the one after the pass, up to the counter
        refine always_migrate_recorded hp.state fun piece hpiece => ?_
        have hpieces : p.state.device.pieces = t.state.device.pieces :=
          (congrArg (fun s : Client => s.device.pieces) hp.state :)
        have hmigrated : p.state.migratedIds uid = t.state.migratedIds uid :=
          (congrArg (fun s : Client => s.migratedIds uid) hp.state :)
        rw [hmigrated]
        exact hrecorded piece (hpieces ▸ hpiece)
      · intro s hs
        exact hs
      · cases event with
        | advance given fate => exact fun _ _ => trivial
        | _ => trivial
    · rw [hidle]
      simp
  exact hsame.state

/-- Passes, each of which may fail anywhere or be killed, and then one whose operations are all
performed: it ends, no piece fails, the cloud holds the pieces of the device, none is pending, and
further passes write nothing. -/
theorem migration_converges (hcopy : ∀ content, platform.selfCopy content = content)
    (hlocal : start.Migratable platform) (hstart : start.Unmigrated uid)
    {events : List MigrationEvent}
    (hids : EachStep (Migration.step platform uid) (Process.Allowed NewId) (.idle start) events)
    (hrun : run (Migration.step platform uid) (.idle start) events = some m)
    (hidle : m.running = none) (given : Nat → Given) :
    (∃ n t, run (Migration.step platform uid) m (cleanPass given n) = some t ∧
        t.running = none) ∧
      ∀ n t, run (Migration.step platform uid) m (cleanPass given n) = some t →
        t.running = none →
        EachStep (Migration.step platform uid) (Process.Allowed NewId) m (cleanPass given n) →
          (∃ result, t.outcome = some (.ok result) ∧ result.failed = 0) ∧
            start.Converged platform uid t.state ∧
            (∀ given, (pendingCount uid).exec (ClientOperation.interpret platform given) t.state =
              (.ok 0, t.state)) ∧
            ∀ more u, run (Migration.step platform uid) t more = some u →
              u.state.restart = t.state.restart := by
  have hunfinished := partial_of_run hcopy hlocal hstart hids hrun
  constructor
  · obtain ⟨n, t, hclean, hended⟩ : ∃ n t, run (Migration.step platform uid)
        (Process.resume m.state (migrate uid platform)) (performing given n) = some t ∧
          t.running = none := Process.exists_run_performing given _ _
    exact ⟨n, t, run_cons_eq_some.mpr ⟨_, Process.begin_step.mpr ⟨hidle, rfl⟩, hclean⟩, hended⟩
  · intro n t hpass hended hnew
    obtain ⟨hresult, hconverged, hleft⟩ :=
      converged_of_cleanPass hcopy hlocal hunfinished hnew hpass hended
    have hrecorded : ∀ piece ∈ t.state.device.pieces, piece.id ∈ t.state.migratedIds uid := by
      rw [hleft.keeps.pieces]
      exact hconverged.recorded
    refine ⟨hresult, hconverged, fun given => ?_, fun more u hmore => ?_⟩
    · rw [exec_pendingCount, countP_eq_zero_iff.mpr hrecorded]
    · exact restart_of_recorded hended hrecorded hmore

/-! ## A pass that is killed, and one that completes -/

/-- The owner's note on the etude. -/
def etudeNote : AudioNote :=
  ⟨"n1", "me", "audio_0", 0, 900, ⟨0, 1 / 10, 1 / 10, 1 / 5, 1 / 5⟩, noon, none⟩

/-- A device with one piece, on which its owner has drawn and recorded. -/
def annotatedEtude : Client :=
  { oneEtude with device := { oneEtude.device with
      annotationCache := [("etude", ⟨"etude", [⟨"me", .owner, [⟨"s1", "me", 0, "ink", []⟩], none⟩],
        [etudeNote]⟩)]
      audioAssets := [("audio_0", ⟨".m4a", .bytes [7]⟩)] } }

/-- A platform on which a copy onto itself preserves a file. -/
def preserving : Platform := ⟨"documents", fun _ => "c0ffee", id⟩

/-- The app is killed when the recording has been copied. -/
def killedOnce : List MigrationEvent :=
  .begin :: List.replicate 18 (.advance ⟨noon, "", true⟩ .performed) ++ [.kill]

/-- What the next pass is given. -/
def later (_ : Nat) : Given := ⟨⟨43200000001, by decide⟩, "", true⟩

theorem migratable_annotatedEtude : annotatedEtude.Migratable preserving := by
  refine ⟨by decide, ?_, ?_, ?_, ?_⟩
  · intro piece hpiece
    rw [List.mem_singleton.mp hpiece]
    exact ⟨.bytes [37, 80, 68, 70], by decide +kernel, rfl⟩
  · intro piece hpiece other hother _
    rw [List.mem_singleton.mp hpiece, List.mem_singleton.mp hother]
  · intro piece hpiece
    rw [List.mem_singleton.mp hpiece]
    decide
  · intro piece hpiece note hnote
    rw [List.mem_singleton.mp hpiece] at hnote
    rw [show note = etudeNote from List.mem_singleton.mp hnote]
    exact ⟨⟨".m4a", .bytes [7]⟩, by decide⟩

/-- The pass that is killed and the one that is not, on ann's device. -/
theorem migration_converges_annotatedEtude : ∃ m t : Migration,
    run (Migration.step preserving "ann") (.idle annotatedEtude) killedOnce = some m ∧
      run (Migration.step preserving "ann") m (cleanPass later 17) = some t ∧
        annotatedEtude.Converged preserving "ann" t.state := by
  have hruns : (run (Migration.step preserving "ann") (.idle annotatedEtude) killedOnce).any
      (fun m => m.running.isNone && (run (Migration.step preserving "ann") m
        (cleanPass later 17)).any (fun t => t.running.isNone) && decide (EachStep
          (Migration.step preserving "ann") (Process.Allowed NewId) m (cleanPass later 17))) =
            true := by
    decide +kernel
  obtain ⟨m, hrun, hm⟩ := (Option.any_eq_true _ _).mp hruns
  rw [Bool.and_eq_true, Bool.and_eq_true] at hm
  obtain ⟨⟨hidle, hpass⟩, hnew⟩ := hm
  obtain ⟨t, hpass, hended⟩ := (Option.any_eq_true _ _).mp hpass
  have hstart : annotatedEtude.Unmigrated "ann" :=
    ⟨fun _ _ => rfl, fun _ _ => ⟨rfl, fun _ => rfl⟩, fun _ _ h => by cases h⟩
  have hconverges := migration_converges (fun _ => rfl) migratable_annotatedEtude hstart
    (by decide +kernel) hrun (Option.isNone_iff_eq_none.mp hidle) later
  exact ⟨m, t, hrun, hpass, (hconverges.2 17 t hpass (Option.isNone_iff_eq_none.mp hended)
    (of_decide_eq_true hnew)).2.1⟩

end Migration

end Duet
