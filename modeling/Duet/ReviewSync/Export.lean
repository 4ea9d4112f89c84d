import Duet.ReviewSync.Service

/-!
# What an export packs

## Main results

* `exportBundle_ok` — the manifest that a successful export packs, and the device it leaves.
* `keeps_exportBundle` — an export changes neither pieces, annotations, recordings nor marks.
-/

namespace Duet

open Lib Effect

variable {env : Env} {d d' : Device}

/-! ## Archives -/

theorem Archive.content?_addFile_self (archive : Archive) (file : ArchiveFile) :
    (archive.addFile file).content? file.name = some file.content := by
  induction archive with
  | nil => simp [addFile, content?]
  | cons f rest ih =>
    by_cases h : f.name = file.name
    · simp [addFile, content?, h]
    · rw [addFile, if_neg h]
      simpa [content?, h] using ih

/-- The manifest of an archive, `none` when it has none that can be read. -/
def Archive.manifest? (archive : Archive) : Option ReviewManifest := do
  let content ← archive.content? "manifest.json"
  content.decodeJson.bind ReviewManifest.fromJson

theorem Archive.manifest?_addFile (archive : Archive) (manifest : ReviewManifest) :
    (archive.addFile ⟨"manifest.json", .json manifest.toJson⟩).manifest? =
      some manifest.transported := by
  have hcontent := archive.content?_addFile_self ⟨"manifest.json", .json manifest.toJson⟩
  simp only at hcontent
  simp [manifest?, hcontent, Content.decodeJson, ReviewManifest.fromJson_toJson]

/-! ## Packing -/

namespace Device

variable (d : Device) (pieceId : String)

/-- The entry of a note: a live one names the file of its recording. -/
def packedEntry (note : AudioNote) : ManifestAudioEntry :=
  ⟨note, if note.isTombstoned then none
    else (d.audioAssets.get note.audioAssetId).map fun asset => note.id ++ asset.extension⟩

/-- The next export embeds the base PDF. -/
def EmbedsPdf (piece : Piece) : Prop :=
  d.storage.baseShared.get pieceId ≠ some true ∧ (d.files.get piece.basePdfPath).isSome = true

instance (piece : Piece) : Decidable (d.EmbedsPdf pieceId piece) :=
  inferInstanceAs (Decidable (_ ∧ _))

/-- The manifest that an export of the author's slice packs. -/
def manifestFor (env : Env) (authorId : String) (piece : Piece) : ReviewManifest :=
  ⟨1, pieceId, piece.title, authorId,
    if authorId = env.currentUserId then env.currentUserName else none,
    (env.clock .exportManifest).millisecondsSinceEpoch, piece.basePdfChecksum,
    if d.EmbedsPdf pieceId piece then some (Path.basename piece.basePdfPath) else none,
    (exportedLayer (d.annotationsFor pieceId) piece authorId).strokes,
    ((d.annotationsFor pieceId).notesBy authorId).map d.packedEntry⟩

end Device

theorem packAudio_ok {i : Nat} {notes : List AudioNote} {archive packed : Archive}
    {entries : List ManifestAudioEntry}
    (h : (packAudio env i notes archive).exec d = (.ok (entries, packed), d')) :
    entries = notes.map d.packedEntry ∧ d' = d ∧
      ∀ entry ∈ entries, entry.audioFile.isSome = !entry.note.isTombstoned := by
  induction notes generalizing i archive packed entries with
  | nil =>
    simp only [packAudio, exec_pure, Prod.mk.injEq, Except.ok.injEq] at h
    obtain ⟨⟨rfl, -⟩, rfl⟩ := h
    simp
  | cons note rest ih =>
    cases hnote : note.isTombstoned
    case true =>
      rw [packAudio, if_pos hnote, exec_bind_ok] at h
      obtain ⟨⟨entries', packed'⟩, t, hrest, hpure⟩ := h
      simp only [exec_pure, Prod.mk.injEq, Except.ok.injEq] at hpure
      obtain ⟨⟨rfl, rfl⟩, rfl⟩ := hpure
      obtain ⟨rfl, rfl, hentries⟩ := ih hrest
      refine ⟨by simp [Device.packedEntry, hnote], rfl, ?_⟩
      simpa [hnote] using hentries
    case false =>
      rw [packAudio, if_neg (by simp [hnote])] at h
      rcases hasset : d.audioAssets.get note.audioAssetId with _ | asset
      · simp [audioFileFor, hasset, orFail] at h
      · simp only [audioFileFor, hasset, exec_attempt_bind, exec_get_bind, exec_orFail_some] at h
        rw [exec_bind_ok] at h
        obtain ⟨⟨⟩, t, hread, h⟩ := h
        obtain ⟨-, rfl⟩ := Env.await_ok.mp hread
        rw [exec_bind_ok] at h
        obtain ⟨⟨entries', packed'⟩, t, hrest, hpure⟩ := h
        simp only [exec_pure, Prod.mk.injEq, Except.ok.injEq] at hpure
        obtain ⟨⟨rfl, rfl⟩, rfl⟩ := hpure
        obtain ⟨rfl, rfl, hentries⟩ := ih hrest
        refine ⟨by simp [Device.packedEntry, hnote, hasset], rfl, ?_⟩
        simpa [hnote] using hentries

theorem packBasePdf_ok {pieceId : String} {piece : Piece} {archive packed : Archive}
    {pdfFilename : Option String}
    (h : (packBasePdf env pieceId piece archive).exec d = (.ok (pdfFilename, packed), d')) :
    d' = d ∧ pdfFilename = if d.EmbedsPdf pieceId piece then
      some (Path.basename piece.basePdfPath) else none := by
  rcases hfile : d.files.get piece.basePdfPath with _ | content
  · simp only [packBasePdf, exec_get_bind, hfile, exec_pure, Prod.mk.injEq, Except.ok.injEq] at h
    obtain ⟨⟨rfl, -⟩, rfl⟩ := h
    simp [Device.EmbedsPdf, hfile]
  · by_cases hshared : d.storage.baseShared.get pieceId = some true
    · simp [packBasePdf, hfile, hshared] at h
      obtain ⟨⟨rfl, -⟩, rfl⟩ := h
      simp [Device.EmbedsPdf, hshared]
    · simp only [packBasePdf, exec_get_bind, hfile, ne_eq, hshared, not_false_eq_true,
        if_true] at h
      rw [exec_bind_ok] at h
      obtain ⟨⟨⟩, t, hread, hpure⟩ := h
      obtain ⟨-, rfl⟩ := Env.await_ok.mp hread
      simp only [exec_pure, Prod.mk.injEq, Except.ok.injEq] at hpure
      obtain ⟨⟨rfl, -⟩, rfl⟩ := hpure
      simp [Device.EmbedsPdf, hshared, hfile]

/-- The device after a successful export: only the cache and the piece's flag can differ. -/
def Device.exported (d : Device) (pieceId : String) (piece : Piece) : Device :=
  let cached := d.cacheAnnotations pieceId (d.annotationsFor pieceId)
  if d.EmbedsPdf pieceId piece then
    { cached with storage := { cached.storage with
        baseShared := cached.storage.baseShared.set pieceId true } }
  else cached

/-- A successful export packs the manifest of the author's slice as the device holds it. -/
theorem exportBundle_ok {pieceId : String} {authorId : Option String} {bundle : ExportedBundle}
    (h : (exportBundle env pieceId authorId).exec d = (.ok bundle, d')) :
    ∃ piece, d.findPiece pieceId = some piece ∧ d' = d.exported pieceId piece ∧
      bundle.archive.manifest? = some (d.manifestFor pieceId env
        (authorId.getD env.currentUserId) piece).transported ∧
      ∀ entry ∈ (d.manifestFor pieceId env (authorId.getD env.currentUserId) piece).audioEntries,
        entry.audioFile.isSome = !entry.note.isTombstoned := by
  rcases hpiece : d.findPiece pieceId with _ | piece
  · simp [exportBundle, Device.getPiece, hpiece] at h
  refine ⟨piece, rfl, ?_⟩
  simp only [exportBundle, exec_get_bind, Device.getPiece, hpiece] at h
  rw [exec_bind_of_ok (exec_loadAnnotations pieceId d), exec_bind_ok] at h
  let cached := d.cacheAnnotations pieceId (d.annotationsFor pieceId)
  obtain ⟨⟨entries, withAudio⟩, t, hpack, h⟩ := h
  obtain ⟨rfl, rfl, hentries⟩ := packAudio_ok hpack
  rw [exec_bind_ok] at h
  obtain ⟨⟨pdfFilename, withPdf⟩, t, hpdf, h⟩ := h
  obtain ⟨rfl, hfilename⟩ := packBasePdf_ok hpdf
  change pdfFilename = (if d.EmbedsPdf pieceId piece then _ else none) at hfilename
  rw [exec_bind_ok] at h
  obtain ⟨⟨⟩, t, hdir, h⟩ := h
  obtain ⟨-, rfl⟩ := Env.await_ok.mp hdir
  rw [exec_bind_ok] at h
  obtain ⟨⟨⟩, t, hwrite, h⟩ := h
  obtain ⟨-, rfl⟩ := Env.await_ok.mp hwrite
  rw [exec_bind_ok] at h
  obtain ⟨⟨⟩, t, hflag, h⟩ := h
  simp only [exec_pure, Prod.mk.injEq, Except.ok.injEq] at h
  obtain ⟨rfl, rfl⟩ := h
  refine ⟨?_, ?_, hentries⟩
  · by_cases hembeds : d.EmbedsPdf pieceId piece
    · rw [if_pos hembeds] at hfilename
      subst hfilename
      rw [setBaseShared, exec_bind_ok] at hflag
      obtain ⟨⟨⟩, t, hmark, hset⟩ := hflag
      obtain ⟨-, rfl⟩ := Env.await_ok.mp hmark
      rw [Device.exported, if_pos hembeds]
      exact (congrArg Prod.snd hset).symm
    · rw [if_neg hembeds] at hfilename
      subst hfilename
      rw [Device.exported, if_neg hembeds]
      exact (congrArg Prod.snd hflag).symm
  · rw [Archive.manifest?_addFile, hfilename]
    rfl

/-! ## What no export changes -/

section

variable {γ : Type} {view : Device → γ}

theorem keeps_packAudio (i : Nat) (notes : List AudioNote) (archive : Archive) :
    Keeps view (packAudio env i notes archive) := by
  induction notes generalizing i archive with
  | nil => exact .pure _
  | cons note rest ih =>
    rw [packAudio]
    split_ifs
    · exact .bind (ih _ _) fun _ => .pure _
    · refine .bind (.attempt (.bind .get fun _ => .orFail _ _)) fun path => ?_
      cases path with
      | error e => exact .fail _
      | ok asset => exact .bind (env.respects_await _ _) fun _ => .bind (ih _ _) fun _ => .pure _

theorem keeps_packBasePdf (pieceId : String) (piece : Piece) (archive : Archive) :
    Keeps view (packBasePdf env pieceId piece archive) := by
  refine .bind .get fun d => ?_
  rcases d.files.get piece.basePdfPath with _ | content
  · exact .pure _
  · dsimp only
    split_ifs
    · exact .bind (env.respects_await _ _) fun _ => .pure _
    · exact .pure _

/-- An export keeps every view of the device that neither the cache nor the flag takes part in. -/
theorem keeps_exportBundle (view : Device → γ) (env : Env) (pieceId : String)
    (authorId : Option String)
    (hcache : ∀ d : Device, view (d.cacheAnnotations pieceId (d.annotationsFor pieceId)) = view d)
    (hflag : ∀ (d : Device) shared,
      view { d with storage := { d.storage with baseShared := shared } } = view d) :
    Keeps view (exportBundle env pieceId authorId) := by
  refine .bind .get fun d => ?_
  rcases d.getPiece pieceId with e | piece
  · exact .fail _
  refine .bind (fun d => hcache d) fun annotations => ?_
  refine .bind (keeps_packAudio _ _ _) fun ⟨entries, withAudio⟩ => ?_
  refine .bind (keeps_packBasePdf _ _ _) fun ⟨pdfFilename, withPdf⟩ => ?_
  refine .bind (env.respects_await _ _) fun _ => .bind (env.respects_await _ _) fun _ => ?_
  refine .bind ?_ fun _ => .pure _
  cases pdfFilename with
  | none => exact .pure _
  | some filename => exact .bind (env.respects_await _ _) fun _ => .modify fun d => hflag d _

end

end Duet
