import Duet.Cloud.LocalPieceMigrator

/-!
# Migration and the local PDFs

The cloud repository stages a piece where the device keeps it already: the copy of a base PDF onto
itself empties it, after its checksum has been taken. A piece is staged when a pass reads that it has
no document in the cloud.

## Main results

* `Migration.preservesPdfs_iff` — all runs preserve the local PDFs exactly when each piece that is not
  recorded has its document from the start, or nothing to lose.
* `Migration.not_preservesPdfs` — a pass that empties a PDF.
-/

namespace Duet

open Lib

namespace Client

/-- The base PDFs of the pieces are as they were at the start. -/
def KeepsPdfs (start client : Client) : Prop :=
  ∀ piece ∈ start.device.pieces,
    client.device.files.get piece.basePdfPath = start.device.files.get piece.basePdfPath

/-- Every object of a piece has bytes with the checksum of the piece. -/
def StoresPdfs (platform : Platform) (start client : Client) : Prop :=
  ∀ piece ∈ start.device.pieces, ∀ stored, client.basePdfs.get piece.id = some stored →
    platform.sha256 stored.content = piece.basePdfChecksum

/-- The pieces of the device as its repository leaves them: their ids differ, and each has its base
PDF under the path assigned to it, with its checksum. -/
structure HoldsPdfs (platform : Platform) (client : Client) : Prop where
  ids : (client.device.pieces.map (·.id)).Nodup
  assigned : ∀ piece ∈ client.device.pieces, ∃ sourcePath,
    piece.basePdfPath = piecesPath platform.documentsDirectory piece.id sourcePath
  stored : ∀ piece ∈ client.device.pieces, ∃ content,
    client.device.files.get piece.basePdfPath = some content ∧
      platform.sha256 content = piece.basePdfChecksum

/-- Copying the file at `source` onto the base PDF of the piece damages it: a file that is not empty
is copied onto itself, or another one with other bytes is copied. -/
def Damages (client : Client) (source : String) (piece : Piece) : Prop :=
  ∃ content, client.device.files.get source = some content ∧
    if source = piece.basePdfPath then content ≠ .bytes []
    else client.device.files.get piece.basePdfPath ≠ some content

/-- Staging the piece under its id damages the base PDF of a piece. -/
def Overwrites (platform : Platform) (client : Client) (piece : Piece) : Prop :=
  ∃ other ∈ client.device.pieces, other.basePdfPath =
    piecesPath platform.documentsDirectory piece.id piece.basePdfPath ∧
      client.Damages piece.basePdfPath other

/-- A piece that is not recorded has its document in the cloud, or its staging damages nothing. -/
def SparesPdfs (platform : Platform) (uid : String) (client : Client) : Prop :=
  ∀ piece ∈ client.device.pieces, piece.id ∉ client.migratedIds uid →
    client.cloud.doc (.pieces piece.id) = none → ¬client.Overwrites platform piece

section

variable {platform : Platform} {uid : String} {client : Client} {piece : Piece}

/-- A piece whose id has neither a separator nor a dot is staged where it is. -/
theorem piecesPath_piecesPath {id : String} (hid : id ≠ "") (hslash : '/' ∉ id.toList)
    (hdot : '.' ∉ id.toList) (documentsDirectory sourcePath : String) :
    piecesPath documentsDirectory id (piecesPath documentsDirectory id sourcePath) =
      piecesPath documentsDirectory id sourcePath := by
  obtain ⟨front, hpieces⟩ := Path.suffix_join documentsDirectory "pieces"
  have hlast : (Path.join documentsDirectory "pieces").toList.getLast? = some 's' := by
    rw [← hpieces, List.getLast?_append]
    rfl
  refine Path.join_extension_join hid hslash hdot ?_ (by simp [hlast]) sourcePath
  intro hempty
  simp [hempty] at hlast

/-- For such ids the pieces are spared when each has its document or an empty PDF. -/
theorem sparesPdfs_iff (hclient : client.HoldsPdfs platform)
    (hids : ∀ piece ∈ client.device.pieces,
      piece.id ≠ "" ∧ '/' ∉ piece.id.toList ∧ '.' ∉ piece.id.toList) :
    client.SparesPdfs platform uid ↔ ∀ piece ∈ client.device.pieces,
      piece.id ∉ client.migratedIds uid → client.cloud.doc (.pieces piece.id) = none →
        client.device.files.get piece.basePdfPath = some (.bytes []) := by
  refine forall₂_congr fun piece hpiece => forall₂_congr fun _ _ => ?_
  obtain ⟨sourcePath, hassigned⟩ := hclient.assigned piece hpiece
  obtain ⟨content, hcontent, -⟩ := hclient.stored piece hpiece
  obtain ⟨hid, hslash, hdot⟩ := hids piece hpiece
  have hdest : piecesPath platform.documentsDirectory piece.id piece.basePdfPath =
      piece.basePdfPath := by
    rw [hassigned, piecesPath_piecesPath hid hslash hdot]
  rw [Overwrites, hdest, hcontent, Option.some.injEq, not_iff_comm, ← Ne]
  constructor
  · intro hne
    exact ⟨piece, hpiece, rfl, content, hcontent, by rwa [if_pos rfl]⟩
  · rintro ⟨other, -, hsame, content', hcontent', hdamages⟩
    rw [hcontent, Option.some.injEq] at hcontent'
    rwa [if_pos hsame.symm, ← hcontent'] at hdamages

end

end Client

namespace Migration

/-- The local PDFs are as they were, and every object has the bytes its checksum says. -/
def PreservesPdfs (platform : Platform) (start : Client) (m : Migration) : Prop :=
  start.KeepsPdfs m.state ∧ start.StoresPdfs platform m.state

/-! ## What the operations do to files and objects -/

section

variable {platform : Platform} {given : Given} {client start : Client} {uid : String}

/-- The pieces of the device are read only. -/
theorem pieces_perform (o : ClientOperation) :
    (o.perform platform given client).2.device.pieces = client.device.pieces := by
  cases o <;> simp only [ClientOperation.perform, Client.copyFile] <;> split <;> rfl

/-- Only a copy changes a file. -/
theorem files_perform {o : ClientOperation} (h : ∀ source dest, o ≠ .copyFile source dest) :
    (o.perform platform given client).2.device.files = client.device.files := by
  cases o with
  | copyFile source dest => exact absurd rfl (h source dest)
  | _ => simp only [ClientOperation.perform] <;> split <;> rfl

/-- Only a record of a piece changes what is recorded. -/
theorem migrated_perform {o : ClientOperation}
    (h : ∀ uid ids, o ≠ .writeMigrated uid ids) :
    (o.perform platform given client).2.migrated = client.migrated := by
  cases o with
  | writeMigrated uid ids => exact absurd rfl (h uid ids)
  | _ => simp only [ClientOperation.perform, Client.copyFile] <;> split <;> rfl

/-- Only an upload changes an object. -/
theorem basePdfs_perform {o : ClientOperation}
    (h : ∀ pieceId localPath checksum, o ≠ .putPdf pieceId localPath checksum) :
    (o.perform platform given client).2.basePdfs = client.basePdfs := by
  cases o with
  | putPdf pieceId localPath checksum => exact absurd rfl (h pieceId localPath checksum)
  | _ => simp only [ClientOperation.perform, Client.copyFile] <;> split <;> rfl

/-- A copy keeps the base PDFs exactly when it damages none. -/
theorem keepsPdfs_copyFile (given : Given) (hcopy : ∀ content, platform.selfCopy content = .bytes [])
    (h : start.KeepsPdfs client) (source dest : String) :
    start.KeepsPdfs ((ClientOperation.copyFile source dest).perform platform given client).2 ↔
      ∀ piece ∈ start.device.pieces, piece.basePdfPath = dest → ¬client.Damages source piece := by
  cases hsource : client.device.files.get source with
  | none =>
    have hsame : ((ClientOperation.copyFile source dest).perform platform given client).2 =
        client := by simp [ClientOperation.perform, hsource]
    rw [hsame]
    refine iff_of_true h fun piece _ _ => ?_
    rintro ⟨content, hcontent, -⟩
    simp [hsource] at hcontent
  | some content =>
    have hfiles : ((ClientOperation.copyFile source dest).perform platform given
        client).2.device.files = client.device.files.set dest
          (if source = dest then .bytes [] else content) := by
      simp [ClientOperation.perform, Client.copyFile, hsource, hcopy]
    simp only [Client.KeepsPdfs, hfiles]
    refine forall₂_congr fun piece hpiece => ?_
    have hold := h piece hpiece
    rw [Assoc.get_set]
    by_cases hdest : piece.basePdfPath = dest
    · subst hdest
      rw [if_pos rfl, ← hold]
      simp only [Client.Damages, hsource, Option.some.injEq, exists_eq_left', true_imp_iff]
      split_ifs with hself
      · rw [← hself, hsource, not_not, Option.some.injEq, eq_comm]
      · rw [not_not, eq_comm]
    · rw [if_neg hdest]
      exact iff_of_true hold fun heq => absurd heq hdest

/-- An upload of a piece stores its base PDF, which has its checksum. -/
theorem storesPdfs_putPdf (hstart : start.HoldsPdfs platform) (hkeeps : start.KeepsPdfs client)
    (h : start.StoresPdfs platform client) {pieceId localPath checksum : String}
    {piece : Piece} (hpiece : piece ∈ start.device.pieces)
    (hissued : LocalPieceMigrator.Issued uid piece (.putPdf pieceId localPath checksum)) :
    start.StoresPdfs platform
      ((ClientOperation.putPdf pieceId localPath checksum).perform platform given client).2 := by
  obtain ⟨rfl, rfl, rfl⟩ := hissued
  obtain ⟨content, hcontent, hsum⟩ := hstart.stored piece hpiece
  have hobjects : ((ClientOperation.putPdf piece.id piece.basePdfPath
      piece.basePdfChecksum).perform platform given client).2.basePdfs =
        client.basePdfs.set piece.id ⟨content, piece.basePdfChecksum⟩ := by
    simp [ClientOperation.perform, hkeeps piece hpiece, hcontent]
  intro other hother stored hstored
  rw [hobjects, Assoc.get_set] at hstored
  split_ifs at hstored with hid
  · obtain rfl := List.inj_on_of_nodup_map hstart.ids hother hpiece hid
    obtain rfl := Option.some.inj hstored
    exact hsum
  · exact h other hother stored hstored

end

end Migration

/-! ## What a pass keeps -/

namespace Client

/-- What passes keep when the pieces are spared from the start: the base PDFs and the objects, and
that a piece whose staging would damage one is recorded or has its document. -/
structure Spared (platform : Platform) (uid : String) (start client : Client) : Prop where
  pieces : client.device.pieces = start.device.pieces
  keeps : start.KeepsPdfs client
  stores : start.StoresPdfs platform client
  recorded : start.migratedIds uid ⊆ client.migratedIds uid
  documented : ∀ piece ∈ start.device.pieces, piece.id ∉ start.migratedIds uid →
    start.Overwrites platform piece → client.cloud.doc (.pieces piece.id) ≠ none

variable {platform : Platform} {uid : String} {start client : Client}

theorem Spared.of_sparesPdfs (hobjects : start.StoresPdfs platform start)
    (h : start.SparesPdfs platform uid) : Spared platform uid start start :=
  ⟨rfl, fun _ _ => rfl, hobjects, List.Subset.refl _,
    fun piece hpiece hid hover hdoc => h piece hpiece hid hdoc hover⟩

/-- Damage is done to the files as they were at the start. -/
theorem damages_iff (h : start.KeepsPdfs client) {piece other : Piece}
    (hpiece : piece ∈ start.device.pieces) (hother : other ∈ start.device.pieces) :
    client.Damages piece.basePdfPath other ↔ start.Damages piece.basePdfPath other := by
  simp only [Damages, h piece hpiece, h other hother]

end Client

namespace LocalPieceMigrator

/-- A batch of a pass deletes no piece. -/
theorem Writes.keeps_piece {uid id : String} {writes : List Write} (h : Writes uid id writes)
    {cloud cloud' : Cloud} (hok : cloud.commit writes = .ok cloud') {pieceId : String}
    (hdoc : cloud.doc (.pieces pieceId) ≠ none) : cloud'.doc (.pieces pieceId) ≠ none := by
  cases h with
  | piece fields =>
    obtain rfl := Except.ok.inj hok
    rw [Cloud.doc_store]
    split_ifs
    · simp
    · exact hdoc
  | uploaded fields =>
    obtain ⟨merged, hmerged, rfl⟩ := Cloud.commit_singleton.mp hok
    obtain rfl := Except.ok.inj hmerged
    rw [Write.path, Cloud.doc_store]
    split_ifs
    · simp
    · exact hdoc
  | slice strokes rev now existing notes hexisting =>
    obtain ⟨cloud'', hcommit, -, -, hkept⟩ := commit_sliceBatch cloud id uid
      (layerToFirestore ⟨uid, .owner, strokes, none⟩ rev now) notes hexisting
    obtain rfl := Except.ok.inj (hcommit.symm.trans hok)
    rw [hkept _ (by simp) (by simp), if_neg]
    · exact hdoc
    intro hmem
    obtain ⟨⟨path, data⟩, hentry, rfl⟩ := List.mem_map.mp hmem
    exact absurd (hexisting _ hentry) (by simp [Query.selects])

section

open Firestore Program

variable {platform : Platform} {given : Given} {uid : String} {start client : Client}
  {piece : Piece} {α : Type}

/-- Whatever becomes of an operation. -/
abbrev AnyFateOf (_ : Given) (_ : Fate CloudFailure) (_ : ClientOperation) (_ : Client) : Prop :=
  True

/-- An operation other than a copy keeps what is spared. -/
theorem spared_perform (hstart : start.HoldsPdfs platform)
    (h : Client.Spared platform uid start client) (hpiece : piece ∈ start.device.pieces)
    {o : ClientOperation} (hissued : Issued uid piece o) :
    Client.Spared platform uid start (o.perform platform given client).2 := by
  refine ⟨(Migration.pieces_perform o).trans h.pieces, fun other hother => ?_, ?_, ?_,
    fun other hother hid hover => ?_⟩
  · rw [Migration.files_perform (by rintro source dest rfl; exact hissued)]
    exact h.keeps other hother
  · cases o with
    | putPdf pieceId localPath checksum =>
      exact Migration.storesPdfs_putPdf hstart h.keeps h.stores hpiece hissued
    | _ =>
      intro other hother stored hstored
      rw [Migration.basePdfs_perform (fun _ _ _ heq => by cases heq)] at hstored
      exact h.stores other hother stored hstored
  · have hmigrated : (o.perform platform given client).2.migrated = client.migrated := by
      apply Migration.migrated_perform
      rintro uid' ids' rfl
      exact hissued
    have hids : (o.perform platform given client).2.migratedIds uid = client.migratedIds uid := by
      rw [Client.migratedIds, hmigrated, Client.migratedIds]
    exact hids ▸ h.recorded
  · have hdoc := h.documented other hother hid hover
    cases o with
    | firestore op =>
      cases op with
      | get path => exact hdoc
      | list query => exact hdoc
      | transaction body => exact hissued.elim
      | commit writes =>
        obtain ⟨cloud', hcommit⟩ := Writes.commits hissued client.cloud
        have hcloud : ((ClientOperation.firestore (.commit writes)).perform platform given
            client).2.cloud = cloud' := congrArg Prod.snd (Cloud.settle_ok hcommit)
        rw [hcloud]
        exact hissued.keeps_piece hcommit hdoc
    | _ =>
      rw [ClientOperation.cloud_perform (fun _ heq => by cases heq)]
      exact hdoc

/-- What copies nothing keeps what is spared. -/
theorem upholds_spared (hstart : start.HoldsPdfs platform) (hpiece : piece ∈ start.device.pieces)
    {p : ClientProgram α} (hp : IssuesPiece uid start.device.pieces piece p) (h : Client.Spared platform uid start client) :
    Upholds (Faulty (ClientOperation.perform platform) AnyFateOf)
      (Client.Spared platform uid start) p (fun _ _ => True) (fun _ => True) client := by
  refine (hp.always (fun o s r t ho hs hnext => ⟨?_, ?_⟩) h).mono (fun _ ht => ht) ?_
  · obtain ⟨given, fate, -, happly⟩ := hnext
    obtain ⟨rfl, -⟩ := Prod.mk.inj happly
    exact responds_apply hs.pieces platform given fate o
  · exact hnext.keeps hs fun given fate _ => spared_perform hstart hs hpiece ho
  · intro outcome t ht
    cases outcome <;> exact ⟨ht, trivial⟩

/-- A piece is staged when it is neither recorded nor in the cloud: the copy damages nothing. -/
theorem spared_copyFile (hcopy : ∀ content, platform.selfCopy content = .bytes [])
    (h : Client.Spared platform uid start client) (hpiece : piece ∈ start.device.pieces)
    (hid : piece.id ∉ start.migratedIds uid) (hdoc : client.cloud.doc (.pieces piece.id) = none) :
    Client.Spared platform uid start ((ClientOperation.copyFile piece.basePdfPath
      (piecesPath platform.documentsDirectory piece.id piece.basePdfPath)).perform platform given
        client).2 := by
  have hspared : ¬start.Overwrites platform piece :=
    fun hover => h.documented piece hpiece hid hover hdoc
  have hkeeps := (Migration.keepsPdfs_copyFile given hcopy h.keeps piece.basePdfPath
    (piecesPath platform.documentsDirectory piece.id piece.basePdfPath)).mpr
      fun other hother hdest hdamages => hspared ⟨other, hother, hdest,
        (Client.damages_iff h.keeps hpiece hother).mp hdamages⟩
  refine ⟨(Migration.pieces_perform _).trans h.pieces, hkeeps, ?_, ?_, ?_⟩
  · intro other hother stored hstored
    rw [Migration.basePdfs_perform (fun _ _ _ heq => by cases heq)] at hstored
    exact h.stores other hother stored hstored
  · have hids : ((ClientOperation.copyFile piece.basePdfPath (piecesPath
        platform.documentsDirectory piece.id piece.basePdfPath)).perform platform given
          client).2.migratedIds uid = client.migratedIds uid := by
      rw [Client.migratedIds, Migration.migrated_perform (by simp), Client.migratedIds]
    exact hids ▸ h.recorded
  · rw [ClientOperation.cloud_perform (fun _ heq => by cases heq)]
    exact h.documented

theorem spared_registerImportedPiece (hcopy : ∀ content, platform.selfCopy content = .bytes [])
    (hstart : start.HoldsPdfs platform) (h : Client.Spared platform uid start client)
    (hpiece : piece ∈ start.device.pieces) (hid : piece.id ∉ start.migratedIds uid) :
    Upholds (Faulty (ClientOperation.perform platform) AnyFateOf)
      (Client.Spared platform uid start)
      (Firestore.registerImportedPiece platform piece.id piece.title uid piece.basePdfPath none
        piece.ownerName none) (fun _ _ => True) (fun _ => True) client := by
  refine upholds_guarding ((upholds_getDoc (fun _ _ _ _ _ _ _ => trivial) h).bind ?_)
  rintro snapshot t ht ⟨rfl, rfl⟩
  split_ifs with hsome
  · exact .fail ht trivial
  -- the copy comes after a read that found no document
  have hdoc : t.cloud.doc (.pieces piece.id) = none := by simpa using hsome
  have hstaged : Upholds (Faulty (ClientOperation.perform platform) AnyFateOf)
      (Client.Spared platform uid start) (stageLocally platform piece.id piece.basePdfPath)
      (fun _ _ => True) (fun _ => True) t := by
    have hsum : Upholds (Faulty (ClientOperation.perform platform) AnyFateOf)
        (Client.Spared platform uid start) (ask (.checksum piece.basePdfPath))
        (fun _ u => u = t) (fun _ => True) t := by
      refine .ask ht (fun given _ _ => ?_) fun _ _ _ _ _ => trivial
      simp only [ClientOperation.perform]
      split
      · exact ⟨ht, trivial⟩
      · exact ⟨ht, rfl⟩
    refine hsum.bind ?_
    rintro checksum u hu rfl
    refine Upholds.bind (B := fun _ _ => True) (.ask hu (fun given _ _ =>
      ⟨spared_copyFile hcopy hu hpiece hid hdoc, ?_⟩) fun _ _ _ _ _ => trivial)
        fun _ v hv _ => .done hv trivial
    cases ((ClientOperation.copyFile piece.basePdfPath (piecesPath platform.documentsDirectory
      piece.id piece.basePdfPath)).perform platform given u).1 <;> trivial
  refine hstaged.bind fun staged u hu _ => upholds_spared hstart hpiece ?_ hu
  exact .bind (issues_recordBasePath _ _) fun _ => issues_createPiece _ _ _ _ _

theorem spared_migrateOne (hcopy : ∀ content, platform.selfCopy content = .bytes [])
    (hstart : start.HoldsPdfs platform) (h : Client.Spared platform uid start client)
    (hpiece : piece ∈ start.device.pieces) (hid : piece.id ∉ start.migratedIds uid) :
    Upholds (Faulty (ClientOperation.perform platform) AnyFateOf)
      (Client.Spared platform uid start) (migrateOne uid piece platform) (fun _ _ => True)
      (fun _ => True) client := by
  have hdoc : Upholds (Faulty (ClientOperation.perform platform) AnyFateOf)
      (Client.Spared platform uid start) (ensureDoc uid piece platform) (fun _ _ => True)
      (fun _ => True) client := by
    refine (upholds_spared hstart hpiece (issues_getPiece piece.id) h).attempt.bind fun outcome t ht _ => ?_
    cases outcome with
    | ok read => exact .done ht trivial
    | error e =>
      exact (spared_registerImportedPiece hcopy hstart ht hpiece hid).bind fun _ u hu _ =>
        .done hu trivial
  refine hdoc.bind fun _ t ht _ => upholds_spared hstart hpiece ?_ ht
  exact .bind issues_uploadBasePdf fun _ => issues_migrateSlice

/-! ### A pass that stages a piece -/

/-- What a pass can come to. -/
abbrev PassLeads (platform : Platform) (p : ClientProgram α) (client : Client) (q : ClientProgram α)
    (client' : Client) : Prop :=
  p.Leads (Faulty (ClientOperation.perform platform) AnyFateOf) client q client'

theorem performs (platform : Platform) (given : Given) (client : Client) (o : ClientOperation) :
    Faulty (ClientOperation.perform platform) AnyFateOf o client
      (o.perform platform given client).1 (o.perform platform given client).2 :=
  ⟨given, .performed, trivial, rfl⟩

theorem refuses (platform : Platform) (given : Given) (client : Client) (o : ClientOperation) :
    Faulty (ClientOperation.perform platform) AnyFateOf o client (.error .unavailable) client :=
  ⟨given, .refused .unavailable, trivial, rfl⟩

theorem leads_guarding_fail {resourceId : String} {p : ClientProgram α} {e : CloudFailure}
    {client' : Client} (h : PassLeads platform p client (fail e) client') :
    PassLeads platform (guarding resourceId p) client (fail (guardedFailure resourceId e))
      client' := by
  rw [guarding]
  cases e <;> exact h.attempt.bind _

/-- A document that is read, or not. -/
theorem leads_getDoc (platform : Platform) (client : Client) (given : Given) (path : DocPath) :
    PassLeads platform (onFirestore (getDoc path)) client (done (client.cloud.doc path)) client ∧
      PassLeads platform (onFirestore (getDoc path)) client (fail .unavailable) client := by
  rw [show onFirestore (getDoc path) = ask (.firestore (.get path)) from onFirestore_perform _]
  exact ⟨.ask (performs platform given client (.firestore (.get path))),
    .ask_error (refuses platform given client (.firestore (.get path)))⟩

/-- A piece whose document cannot be read fails. -/
theorem leads_migrateOne_fail (platform : Platform) (uid : String) (client : Client) (piece : Piece)
    (given : Given) :
    ∃ e, PassLeads platform (migrateOne uid piece platform) client (fail e) client := by
  have hread : PassLeads platform (getPiece piece.id) client (fail .unavailable) client :=
    leads_guarding_fail ((leads_getDoc _ _ given _).2.bind _)
  have hregister : PassLeads platform (Firestore.registerImportedPiece platform piece.id piece.title
      uid piece.basePdfPath none piece.ownerName none) client (fail .unavailable) client :=
    leads_guarding_fail ((leads_getDoc _ _ given _).2.bind _)
  have hdoc : PassLeads platform (ensureDoc uid piece platform) client (fail .unavailable) client :=
    .trans (hread.attempt.bind _) (hregister.bind _)
  exact ⟨.unavailable, hdoc.bind _⟩

/-- A piece that is not in the cloud is staged. -/
theorem leads_migrateOne_staged (uid : String) (given : Given)
    (hdoc : client.cloud.doc (.pieces piece.id) = none)
    {content : Content} (hsource : client.device.files.get piece.basePdfPath = some content) :
    ∃ q, PassLeads platform (migrateOne uid piece platform) client q
      ((ClientOperation.copyFile piece.basePdfPath (piecesPath platform.documentsDirectory
        piece.id piece.basePdfPath)).perform platform given client).2 := by
  have hread : ∃ e, PassLeads platform (getPiece piece.id) client (fail e) client := by
    have hmissing : PassLeads platform (readPiece piece.id none) client
        (fail (.stateError s!"Unknown piece: {piece.id}")) client :=
      .call (performs platform given client .readBasePaths) (.refl _ _)
    refine ⟨_, leads_guarding_fail (e := .stateError s!"Unknown piece: {piece.id}")
      (.trans ((leads_getDoc _ _ given _).1.bind _) ?_)⟩
    rw [hdoc]
    exact hmissing
  obtain ⟨e, hread⟩ := hread
  have hregister : ∃ q, PassLeads platform (Firestore.registerImportedPiece platform piece.id
      piece.title uid piece.basePdfPath none piece.ownerName none) client q
        ((ClientOperation.copyFile piece.basePdfPath (piecesPath platform.documentsDirectory
          piece.id piece.basePdfPath)).perform platform given client).2 := by
    have hstaged : ∃ q, PassLeads platform (stageLocally platform piece.id piece.basePdfPath) client
        q ((ClientOperation.copyFile piece.basePdfPath (piecesPath platform.documentsDirectory
          piece.id piece.basePdfPath)).perform platform given client).2 := by
      have hsum := performs platform given client (.checksum piece.basePdfPath)
      simp only [ClientOperation.perform, hsource] at hsum
      exact ⟨_, .ask_bind hsum (.call (performs platform given client (.copyFile piece.basePdfPath _))
        (.refl _ _))⟩
    obtain ⟨q, hstaged⟩ := hstaged
    have hnone := (leads_getDoc platform client given (.pieces piece.id)).1
    rw [hdoc] at hnone
    exact ⟨_, .bind (.attempt (.trans (hnone.bind _) (hstaged.bind _))) _⟩
  obtain ⟨q, hregister⟩ := hregister
  have hensure : ∃ q, PassLeads platform (ensureDoc uid piece platform) client q _ :=
    ⟨_, .trans (hread.attempt.bind _) (hregister.bind _)⟩
  obtain ⟨q, hensure⟩ := hensure
  exact ⟨_, hensure.bind _⟩

/-- The pieces before a piece can fail at once. -/
theorem leads_staged (uid : String) (given : Given) {migrated : List String} (hid : piece.id ∉ migrated)
    (hdoc : client.cloud.doc (.pieces piece.id) = none) {content : Content}
    (hsource : client.device.files.get piece.basePdfPath = some content)
    (before after : List Piece) (result : MigrationResult) :
    ∃ q, PassLeads platform (migrateEach uid platform migrated (before ++ piece :: after) result)
      client q ((ClientOperation.copyFile piece.basePdfPath (piecesPath
        platform.documentsDirectory piece.id piece.basePdfPath)).perform platform given client).2 := by
  induction before generalizing result with
  | nil =>
    obtain ⟨q, hstaged⟩ := leads_migrateOne_staged uid given hdoc hsource
    rw [List.nil_append, migrateEach, if_neg (by simpa using hid)]
    exact ⟨_, hstaged.attempt.bind _⟩
  | cons other before ih =>
    rw [List.cons_append, migrateEach]
    split_ifs with hother
    · exact ih result
    obtain ⟨e, hfailed⟩ := leads_migrateOne_fail platform uid client other given
    obtain ⟨q, hleads⟩ := ih { result with failed := result.failed + 1 }
    exact ⟨q, .trans (hfailed.attempt.bind _) hleads⟩

/-- A pass keeps the local PDFs when the pieces are spared. -/
theorem always_migrate_spared (hcopy : ∀ content, platform.selfCopy content = .bytes [])
    (hstart : start.HoldsPdfs platform) (h : Client.Spared platform uid start client) :
    (migrate uid platform).Always (Faulty (ClientOperation.perform platform) AnyFateOf)
      (Client.Spared platform uid start) (fun _ _ => True) client := by
  refine .bind (.ask_read h (fun _ => rfl) ?_ fun _ => trivial)
  refine .bind (.ask_read h (fun _ => rfl) ?_ fun _ => trivial)
  change Program.Always _ _ (migrateEach uid platform (client.migratedIds uid)
    client.device.pieces ⟨0, 0⟩) _ _
  refine Always.mono (upholds_migrateEach (fun _ => Client.Spared platform uid start)
    (fun _ _ => True) True (fun _ _ ht => ht) (client.migratedIds uid) ?_ ?_
    (fun piece hpiece => h.pieces ▸ hpiece) ⟨0, 0⟩ [] h) (fun _ ht => ht) fun _ _ _ => trivial
  · intro piece hpiece hid _ t ht
    refine (spared_migrateOne hcopy hstart ht hpiece fun hold => hid (h.recorded hold)).mono
      (fun _ hu => hu) (fun _ _ hu _ => ⟨hu, trivial⟩) fun _ hu _ => ⟨hu, trivial⟩
  · intro piece hpiece _ t ht _
    refine (upholds_markMigrated id (fun _ _ _ => rfl) (fun _ _ _ _ _ _ => trivial)
      (Client.Spared platform uid start) (Client.Spared platform uid start) (fun _ hu => hu) ht
      ⟨ht.pieces, ht.keeps, ht.stores, fun id hold => ?_, ht.documented⟩)
    exact mem_migratedIds_recorded.mpr (.inr (ht.recorded hold))

end

end LocalPieceMigrator

namespace Migration

variable {platform : Platform} {uid : String} {start : Client} {m t : Migration}
  {event : MigrationEvent}

/-- When a copy of a file onto itself empties it, all runs of passes preserve the local PDFs exactly
when the pieces are spared from the start. -/
theorem preservesPdfs_iff (hcopy : ∀ content, platform.selfCopy content = .bytes [])
    (hstart : start.HoldsPdfs platform) (hobjects : start.StoresPdfs platform start) :
    (∀ events, Always (Migration.step platform uid) (PreservesPdfs platform start) (.idle start)
        events) ↔ start.SparesPdfs platform uid := by
  constructor
  · intro halways piece hpiece hid hdoc
    rintro ⟨other, hother, hdest, hdamages⟩
    obtain ⟨content, hsource, -⟩ := id hdamages
    obtain ⟨before, after, hsplit⟩ := List.append_of_mem hpiece
    let given : Given := ⟨noon, "", true⟩
    obtain ⟨q, hstaged⟩ := LocalPieceMigrator.leads_staged uid given hid hdoc hsource
      before after ⟨0, 0⟩
    rw [← hsplit] at hstaged
    have hpass : (LocalPieceMigrator.migrate uid platform).Leads
        (Faulty (ClientOperation.perform platform) LocalPieceMigrator.AnyFateOf) start q
          ((ClientOperation.copyFile piece.basePdfPath (piecesPath platform.documentsDirectory
            piece.id piece.basePdfPath)).perform platform given start).2 :=
      .ask_bind ⟨given, .performed, trivial, rfl⟩
        (.ask_bind ⟨given, .performed, trivial, rfl⟩ hstaged)
    obtain ⟨events, hrun⟩ := Process.exists_run_of_leads hpass
    have hkept := ((halways (.begin :: events)).last (run_cons_eq_some.mpr ⟨_, rfl, hrun⟩)).1
    rw [Process.state_resume] at hkept
    exact (keepsPdfs_copyFile given hcopy (fun _ _ => rfl) _ _).mp hkept other hother hdest hdamages
  · intro hspares events
    refine Always.of_invariant (I := fun m : Migration => m.Keeps
        (Faulty (ClientOperation.perform platform) LocalPieceMigrator.AnyFateOf)
        (Client.Spared platform uid start) fun _ _ => True)
      (fun m event t hm _ hstep => ?_) (fun m hm => ⟨hm.state.keeps, hm.state.stores⟩)
      (Process.keeps_idle (.of_sparesPdfs hobjects hspares)) (.of_forall fun _ _ _ => trivial)
    refine Process.keeps_step (fun _ => ?_) (fun s hs => ?_) hm ?_ hstep
    · exact LocalPieceMigrator.always_migrate_spared hcopy hstart hm.state
    · exact ⟨hs.pieces, hs.keeps, hs.stores, hs.recorded, hs.documented⟩
    · cases event with
      | advance given fate => exact fun _ _ => trivial
      | _ => trivial

/-! ## A pass that empties a PDF -/

/-- A device that holds one piece, under the path assigned to it. -/
def oneEtude : Client :=
  let piece : Piece :=
    ⟨"etude", "Etude", "c0ffee", "documents/pieces/etude.pdf", "me", none, [], noon, noon⟩
  ⟨{ Device.fresh with
      pieces := [piece]
      files := [("documents/pieces/etude.pdf", .bytes [37, 80, 68, 70])] },
    .empty, [], [], [], [], [], 0⟩

/-- The checksum of every file but the empty one. -/
def checksumming : Platform :=
  ⟨"documents", fun content => if content = .bytes [] then "" else "c0ffee", fun _ => .bytes []⟩

theorem holdsPdfs_oneEtude : oneEtude.HoldsPdfs checksumming := by
  refine ⟨by decide, ?_, ?_⟩
  · intro piece hpiece
    rw [List.mem_singleton.mp hpiece]
    exact ⟨"etude.pdf", by decide +kernel⟩
  · intro piece hpiece
    rw [List.mem_singleton.mp hpiece]
    exact ⟨.bytes [37, 80, 68, 70], by decide +kernel, by decide +kernel⟩

/-- A pass until the piece has been staged. -/
def untilStaged : List MigrationEvent :=
  .begin :: List.replicate 7 (.advance ⟨noon, "", true⟩ .performed)

theorem preservesPdfs_iff_oneEtude :
    (∀ events, Always (Migration.step checksumming "ann") (PreservesPdfs checksumming oneEtude)
        (.idle oneEtude) events) ↔ oneEtude.SparesPdfs checksumming "ann" :=
  preservesPdfs_iff (fun _ => rfl) holdsPdfs_oneEtude fun _ _ _ h => by cases h

/-- Without any failure, the copy that stages the piece empties it. -/
theorem not_preservesPdfs : ¬∀ platform uid start events,
    (∀ content, platform.selfCopy content = .bytes []) → start.HoldsPdfs platform →
      start.StoresPdfs platform start →
        Always (Migration.step platform uid) (PreservesPdfs platform start) (.idle start) events := by
  intro hall
  have halways := hall checksumming "ann" oneEtude untilStaged (fun _ => rfl) holdsPdfs_oneEtude
    fun _ _ _ h => by cases h
  have hempty : (run (Migration.step checksumming "ann") (.idle oneEtude) untilStaged).any (fun m =>
      m.state.device.files.get "documents/pieces/etude.pdf" = some (.bytes [])) = true := by
    decide +kernel
  obtain ⟨m, hrun, hempty⟩ := (Option.any_eq_true _ _).mp hempty
  have hkept := (halways.last hrun).1 _ (List.mem_singleton.mpr rfl)
  exact absurd (hkept.symm.trans (of_decide_eq_true hempty)) (by decide +kernel)

end Migration

end Duet
