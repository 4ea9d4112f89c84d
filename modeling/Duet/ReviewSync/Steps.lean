import Duet.ReviewSync.Export

/-!
# The steps of an import

Opening a bundle, resolving its piece, restoring its recordings and deleting stale ones: one
specification each, exact for every place at which the step can fail.

## Main results

* `exec_openBundle` — opening a bundle is a function of the bundle and touches no state.
* `importPieceFromBundle_cases` — at most one piece is registered, under the bundle's author.
* `exec_restoreAudio` — the notes as imported, and the assets that are stored on the way.
* `exec_deleteStaleAssets` — deleting the stale assets cannot fail.
-/

namespace Duet

open Lib Effect

variable {sha256 : Content → String} {env : Env} {archive : Archive} {manifest : ReviewManifest}
  {bundle : Option Archive} {d d' : Device}

/-! ## Opening a bundle -/

/-- The archive and manifest of a bundle that can be opened. -/
def opened? (env : Env) (bundle : Option Archive) : Option (Archive × ReviewManifest) := do
  let archive ← bundle
  let manifest ← archive.manifest?
  if env.fails .readBundle then none else some (archive, manifest)

/-- Opening a bundle depends on the bundle alone and changes nothing. -/
theorem exec_openBundle (env : Env) (bundle : Option Archive) (d : Device) :
    (∃ opening, opened? env bundle = some opening ∧
      (openBundle env bundle).exec d = (.ok opening, d)) ∨
    (opened? env bundle = none ∧ ∃ e, (openBundle env bundle).exec d = (.error e, d)) := by
  rcases hread : env.fails .readBundle with _ | _
  · rcases bundle with _ | archive
    · simp [opened?, openBundle, Env.await, hread, orFail]
    · rcases hc : archive.content? "manifest.json" with _ | content
      · simp [opened?, Archive.manifest?, openBundle, Env.await, hread, orFail, hc]
      · rcases hm : content.decodeJson.bind ReviewManifest.fromJson with _ | manifest <;>
          simp [opened?, Archive.manifest?, openBundle, Env.await, hread, orFail, hc, hm]
  · rcases bundle with _ | archive
    · simp [opened?, openBundle, exec_bind, Env.await, hread]
    · simp [opened?, openBundle, exec_bind, Env.await, hread]

theorem openBundle_ok {opening : Archive × ReviewManifest} :
    (openBundle env bundle).exec d = (.ok opening, d') ↔
      opened? env bundle = some opening ∧ d' = d := by
  rcases exec_openBundle env bundle d with ⟨o, ho, h⟩ | ⟨ho, e, h⟩
  · simp [ho, h, eq_comm]
  · simp [ho, h]

theorem opened?_eq_some {opening : Archive × ReviewManifest} :
    opened? env bundle = some opening ↔
      env.fails .readBundle = false ∧ bundle = some opening.1 ∧
        opening.1.manifest? = some opening.2 := by
  obtain ⟨archive, manifest⟩ := opening
  rcases hread : env.fails .readBundle with _ | _ <;>
    simp [opened?, hread, Option.bind_eq_some_iff]

/-! ## Resolving the piece -/

/-- The piece that registering `content` at `tempPath` creates. -/
def importedPiece (sha256 : Content → String) (env : Env) (manifest : ReviewManifest)
    (tempPath : String) (content : Content) : Piece :=
  let isSelfImport := env.currentUserId = manifest.authorId
  ⟨manifest.pieceId, manifest.pieceTitle, sha256 content,
    piecesPath env.documentsDirectory manifest.pieceId tempPath, manifest.authorId,
    manifest.authorName, importedCollaborators (if isSelfImport then none else
      some env.currentUserId) (if isSelfImport then none else env.currentUserName),
    env.clock .persistPieces, env.clock .persistPieces⟩

/-- The piece that a bundle's embedded PDF creates, `none` when a step before its registration
fails. -/
def registeredPiece? (sha256 : Content → String) (env : Env) (manifest : ReviewManifest)
    (archive : Archive) : Option Piece := do
  let pdfFilename ← manifest.basePdfFilename
  let content ← archive.content? ("pdf/" ++ pdfFilename)
  if env.fails .bundlesDirectory || env.fails .writePdf || env.fails .checksumPdf ||
      env.fails .copyPdf then none
  else some (importedPiece sha256 env manifest (tempPdfPath env manifest pdfFilename) content)

/-- The device with a piece added in memory. -/
def Device.holdPiece (d : Device) (piece : Piece) (files : Assoc String Content) : Device :=
  { d with pieces := d.pieces ++ [piece], files := files }

/-- The device with a piece added in memory and in the preferences. -/
def Device.registerPiece (d : Device) (piece : Piece) (files : Assoc String Content) : Device :=
  { d with
    pieces := d.pieces ++ [piece]
    files := files
    storage := { d.storage with pieceRecords := some (d.pieces ++ [piece]) } }

theorem exec_writeFile (env : Env) (step : Step) (path : String) (content : Content)
    (d : Device) : (writeFile env step path content).exec d =
      if env.fails step then (.error (.platform step), d)
      else (.ok (), { d with files := d.files.set path content }) := by
  cases h : env.fails step <;> simp [writeFile, Env.await, h]

theorem exec_deleteIfPresent (env : Env) (step : Step) (path : String) (d : Device) :
    ∃ r files, (deleteIfPresent env step path).exec d = (r, { d with files := files }) := by
  rcases hp : d.files.get path with _ | content
  · exact ⟨.ok (), d.files, by simp [deleteIfPresent, hp]⟩
  · cases h : env.fails step
    · exact ⟨.ok (), d.files.erase path, by simp [deleteIfPresent, hp, Env.await, h]⟩
    · exact ⟨.error (.platform step), d.files, by simp [deleteIfPresent, hp, Env.await, h]⟩

theorem exec_deleteIfPresent_of_isSome (env : Env) (step : Step) {path : String}
    (h : (d.files.get path).isSome = true) : (deleteIfPresent env step path).exec d =
      if env.fails step then (.error (.platform step), d)
      else (.ok (), { d with files := d.files.erase path }) := by
  cases hs : env.fails step <;> simp [deleteIfPresent, h, Env.await, hs]

/-- How the registration of `piece` ends: held in memory only, registered but reported as a
failure, or registered. -/
def RegistrationEnds (env : Env) (manifest : ReviewManifest) (d : Device) (piece : Piece)
    (outcome : Except Failure Piece × Device) : Prop :=
  (env.fails .persistPieces = true ∧ ∃ e files, outcome = (.error e, d.holdPiece piece files)) ∨
  (env.fails .persistPieces = false ∧
    (env.fails .removePdf = true ∨ piece.basePdfChecksum ≠ manifest.basePdfChecksum) ∧
    ∃ e files, outcome = (.error e, d.registerPiece piece files)) ∨
  (env.fails .persistPieces = false ∧ env.fails .removePdf = false ∧
    piece.basePdfChecksum = manifest.basePdfChecksum ∧
    ∃ files, outcome = (.ok piece, d.registerPiece piece files))

theorem registerTempFile_cases (sha256 : Content → String) (env : Env) {tempPath : String} {content : Content}
    (hnew : d.findPiece manifest.pieceId = none) (htemp : d.files.get tempPath = some content) :
    if env.fails .checksumPdf ∨ env.fails .copyPdf then
      ∃ e files, (registerTempFile sha256 env manifest tempPath).exec d =
        (.error e, { d with files := files })
    else RegistrationEnds env manifest d (importedPiece sha256 env manifest tempPath content)
      ((registerTempFile sha256 env manifest tempPath).exec d) := by
  have hregister := exec_registerImportedPiece sha256 env hnew htemp
    manifest.pieceTitle manifest.authorId
    (if env.currentUserId = manifest.authorId then none else some env.currentUserId)
    manifest.authorName
    (if env.currentUserId = manifest.authorId then none else env.currentUserName)
  -- a registration that fails leaves what its clean-up leaves
  have hfailed : ∀ {e t}, (registerImportedPiece sha256 env manifest.pieceId manifest.pieceTitle
      manifest.authorId tempPath
      (if env.currentUserId = manifest.authorId then none else some env.currentUserId)
      manifest.authorName
      (if env.currentUserId = manifest.authorId then none else env.currentUserName)).exec d =
        (.error e, t) →
      ∃ e' files, (registerTempFile sha256 env manifest tempPath).exec d =
        (.error e', { t with files := files }) := by
    intro e t h
    obtain ⟨e', he'⟩ := exec_andFinally_of_error (q := deleteIfPresent env .removePdf tempPath) h
    obtain ⟨r, files, hr⟩ := exec_deleteIfPresent env .removePdf tempPath t
    rw [hr] at he'
    exact ⟨e', files, exec_bind_of_error he' _⟩
  split_ifs with hsteps
  · rcases hsteps with hs | hs
    · exact hfailed (by rw [hregister, if_pos hs])
    · cases hcheck : env.fails .checksumPdf
      · exact hfailed (by rw [hregister, hcheck, hs]; rfl)
      · exact hfailed (by rw [hregister, hcheck]; rfl)
  · obtain ⟨hcheck, hcopy⟩ := not_or.mp hsteps
    rw [if_neg hcheck, if_neg hcopy] at hregister
    let piece := importedPiece sha256 env manifest tempPath content
    let files := d.files.set (piecesPath env.documentsDirectory manifest.pieceId tempPath) content
    change _ = (addPiece env piece >>= fun _ => pure piece).exec { d with files := files }
      at hregister
    cases hpersist : env.fails .persistPieces
    case true =>
      obtain ⟨e', files', h⟩ := hfailed (by
        rw [hregister, exec_bind_of_error (by rw [exec_addPiece, hpersist]; rfl)])
      exact .inl ⟨hpersist, e', files', h⟩
    rw [exec_bind_of_ok (a := ()) (t := d.registerPiece piece files)
      (by rw [exec_addPiece, hpersist]; rfl)] at hregister
    have htemp' : (files.get tempPath).isSome = true := by
      simp only [files, Assoc.get_set]
      split_ifs <;> simp [htemp]
    have hfinally := exec_andFinally_of_ok (q := deleteIfPresent env .removePdf tempPath) hregister
    have hclean : (deleteIfPresent env .removePdf tempPath).exec (d.registerPiece piece files) = _ :=
      exec_deleteIfPresent_of_isSome env .removePdf htemp'
    cases hremove : env.fails .removePdf
    case true =>
      rw [hclean, hremove, if_pos rfl] at hfinally
      exact .inr (.inl ⟨hpersist, .inl hremove, _, files, exec_bind_of_error hfinally _⟩)
    rw [hclean, hremove, if_neg Bool.false_ne_true] at hfinally
    have hend : (registerTempFile sha256 env manifest tempPath).exec d =
        (verifyImportedPdf manifest piece).exec (d.registerPiece piece (files.erase tempPath)) :=
      exec_bind_of_ok hfinally _
    by_cases hsum : piece.basePdfChecksum = manifest.basePdfChecksum
    · rw [verifyImportedPdf, if_neg (not_not.mpr hsum)] at hend
      exact .inr (.inr ⟨hpersist, hremove, hsum, _, hend⟩)
    · rw [verifyImportedPdf, if_pos hsum] at hend
      exact .inr (.inl ⟨hpersist, .inr hsum, _, _, hend⟩)

/-- An import of an unknown piece either registers nothing, or registers one piece, under the
bundle's author, and ends as `RegistrationEnds` says. -/
theorem importPieceFromBundle_cases (sha256 : Content → String) (env : Env) (archive : Archive)
    (hnew : d.findPiece manifest.pieceId = none) :
    (registeredPiece? sha256 env manifest archive = none ∧ ∃ e files,
      (importPieceFromBundle sha256 env manifest archive).exec d =
        (.error e, { d with files := files })) ∨
    ∃ piece, registeredPiece? sha256 env manifest archive = some piece ∧
      RegistrationEnds env manifest d piece
        ((importPieceFromBundle sha256 env manifest archive).exec d) := by
  rcases hf : manifest.basePdfFilename with _ | pdfFilename
  · exact .inl ⟨by simp [registeredPiece?, hf], _, d.files,
      by simp [importPieceFromBundle, hf]; rfl⟩
  rcases hc : archive.content? ("pdf/" ++ pdfFilename) with _ | content
  · exact .inl ⟨by simp [registeredPiece?, hf, hc], _, d.files,
      by simp [importPieceFromBundle, hf, hc]; rfl⟩
  cases hd : env.fails .bundlesDirectory
  case true =>
    exact .inl ⟨by simp [registeredPiece?, hf, hd], _, d.files,
      by simp [importPieceFromBundle, hf, hc, exec_bind, Env.await, hd]; rfl⟩
  cases hw : env.fails .writePdf
  case true =>
    exact .inl ⟨by simp [registeredPiece?, hf, hw], _, d.files,
      by simp [importPieceFromBundle, hf, hc, exec_bind, Env.await, hd, exec_writeFile, hw]; rfl⟩
  let tempPath := tempPdfPath env manifest pdfFilename
  let d₁ : Device := { d with files := d.files.set tempPath content }
  have hexec : (importPieceFromBundle sha256 env manifest archive).exec d =
      (registerTempFile sha256 env manifest tempPath).exec d₁ := by
    simp only [importPieceFromBundle, hf, hc, exec_orFail_some_bind]
    rw [exec_bind_of_ok (Env.exec_await_of_not_fails hd d), exec_bind_of_ok]
    rw [exec_writeFile, hw]
    rfl
  have hwritten : d₁.files.get tempPath = some content := by simp [d₁]
  have hnew' : d₁.findPiece manifest.pieceId = none := hnew
  have hcases := registerTempFile_cases sha256 env hnew' hwritten
  rw [hexec]
  split_ifs at hcases with hsteps
  · refine .inl ⟨?_, hcases⟩
    rcases hsteps with hs | hs <;> simp [registeredPiece?, hf, hs]
  · refine .inr ⟨_, ?_, hcases⟩
    simp_all [registeredPiece?, tempPath]

/-! ## Restoring the recordings -/

section

variable (env : Env) (archive : Archive)

/-- The recording of an entry that gets stored; `none` when the entry has none, or when a step
before it is stored fails. -/
def storedRecording? (i : Nat) (entry : ManifestAudioEntry) : Option AudioAsset := do
  let audioFile ← entry.audioFile
  let content ← archive.content? ("audio/" ++ audioFile)
  if env.fails (.writeAudio i) || env.fails (.putAudio i) then none
  else some ⟨Path.extension (tempAudioPath env entry audioFile), content⟩

/-- No step of restoring the entry fails. -/
def restorable (i : Nat) (entry : ManifestAudioEntry) : Bool :=
  entry.audioFile.isNone ||
    ((storedRecording? env archive i entry).isSome && !env.fails (.removeAudio i))

/-- The counter of the audio store after an entry. -/
def seqAfter (seq : Nat) (entry : ManifestAudioEntry) : Nat :=
  if entry.audioFile.isSome then seq + 1 else seq

/-- The note that an entry becomes when the counter of the audio store stands at `seq`. -/
def importedNote (i seq : Nat) (entry : ManifestAudioEntry) : AudioNote :=
  if entry.audioFile.isSome then
    entry.note.withAsset (audioId (env.clock (.putAudio i)) seq)
  else entry.note

/-- The stored assets after an entry. -/
def assetsAfter (i seq : Nat) (entry : ManifestAudioEntry) (assets : Assoc String AudioAsset) :
    Assoc String AudioAsset :=
  match storedRecording? env archive i entry with
  | none => assets
  | some asset => assets.set (audioId (env.clock (.putAudio i)) seq) asset

/-- The device with its audio store and its scratch files replaced. -/
def Device.withAudio (d : Device) (assets : Assoc String AudioAsset) (seq : Nat)
    (files : Assoc String Content) : Device :=
  { d with audioAssets := assets, audioSeq := seq, files := files }

theorem exec_putAudio {sourcePath : String} {content : Content}
    (hsource : d.files.get sourcePath = some content) (i : Nat) :
    (putAudio env i sourcePath).exec d =
      if env.fails (.putAudio i) then
        (.error (.platform (.putAudio i)), { d with audioSeq := d.audioSeq + 1 })
      else (.ok (audioId (env.clock (.putAudio i)) d.audioSeq), { d with
        audioSeq := d.audioSeq + 1
        audioAssets := d.audioAssets.set (audioId (env.clock (.putAudio i)) d.audioSeq)
          ⟨Path.extension sourcePath, content⟩ }) := by
  cases h : env.fails (.putAudio i) <;> simp [putAudio, exec_bind, Env.await, h, hsource]

end

theorem exec_restoreNote (env : Env) (archive : Archive) (i : Nat) (entry : ManifestAudioEntry)
    (d : Device) :
    ∃ r files seq, (restoreNote env archive i entry).exec d =
      (r, d.withAudio (assetsAfter env archive i d.audioSeq entry d.audioAssets) seq files) ∧
      if restorable env archive i entry then
        r = .ok (importedNote env i d.audioSeq entry) ∧ seq = seqAfter d.audioSeq entry
      else ∃ e, r = .error e := by
  rcases hf : entry.audioFile with _ | audioFile
  · exact ⟨_, d.files, d.audioSeq, by simp [restoreNote, Device.withAudio, assetsAfter, storedRecording?, hf]; rfl,
      by simp [restorable, importedNote, seqAfter, hf]⟩
  rcases hc : archive.content? ("audio/" ++ audioFile) with _ | content
  · exact ⟨_, d.files, d.audioSeq,
      by simp [restoreNote, Device.withAudio, assetsAfter, storedRecording?, hf, hc]; rfl,
      by simp [restorable, storedRecording?, hf, hc]⟩
  let tempPath := tempAudioPath env entry audioFile
  cases hw : env.fails (.writeAudio i)
  case true =>
    exact ⟨_, d.files, d.audioSeq,
      by simp [restoreNote, Device.withAudio, assetsAfter, storedRecording?, hf, hc, exec_bind, exec_writeFile, hw]
         rfl,
      by simp [restorable, storedRecording?, hf, hw]⟩
  have hpresent : { d with files := d.files.set tempPath content }.files.get tempPath =
      some content := by simp
  have hput := exec_putAudio env hpresent i
  have hclean : ∀ t : Device, (t.files.get tempPath).isSome = true →
      (deleteIfPresent env (.removeAudio i) tempPath).exec t =
        if env.fails (.removeAudio i) then (.error (.platform (.removeAudio i)), t)
        else (.ok (), { t with files := t.files.erase tempPath }) :=
    fun t ht => exec_deleteIfPresent_of_isSome env _ ht
  let written := d.files.set tempPath content
  cases hp : env.fails (.putAudio i) <;> cases hr : env.fails (.removeAudio i)
  case false.false =>
    refine ⟨.ok (entry.note.withAsset (audioId (env.clock (.putAudio i)) d.audioSeq)),
      written.erase tempPath, d.audioSeq + 1, ?_, ?_⟩
    · simp [restoreNote, Device.withAudio, assetsAfter, storedRecording?, hf, hc, exec_bind, exec_writeFile, hw,
        hput, hp, hclean, hr, tempPath, written]
    · simp [restorable, storedRecording?, importedNote, seqAfter, hf, hc, hw, hp, hr]
  case false.true =>
    refine ⟨.error (.platform (.removeAudio i)), written, d.audioSeq + 1, ?_, ?_⟩
    · simp [restoreNote, Device.withAudio, assetsAfter, storedRecording?, hf, hc, exec_bind, exec_writeFile, hw,
        hput, hp, hclean, hr, tempPath, written]
    · simp [restorable, storedRecording?, hf, hr]
  case true.false =>
    refine ⟨.error (.reviewSyncCaused
      s!"Failed to store imported audio for note {entry.note.id}: " (.platform (.putAudio i))),
      written.erase tempPath, d.audioSeq + 1, ?_, ?_⟩
    · simp [restoreNote, Device.withAudio, assetsAfter, storedRecording?, hf, hc, exec_bind, exec_writeFile, hw,
        hput, hp, hclean, hr, tempPath, written]
    · simp [restorable, storedRecording?, hf, hp]
  case true.true =>
    refine ⟨.error (.platform (.removeAudio i)), written, d.audioSeq + 1, ?_, ?_⟩
    · simp [restoreNote, Device.withAudio, assetsAfter, storedRecording?, hf, hc, exec_bind, exec_writeFile, hw,
        hput, hp, hclean, hr, tempPath, written]
    · simp [restorable, storedRecording?, hf, hr]

section

variable (env : Env) (archive : Archive)

/-- No step of restoring any of the entries fails. -/
def allRestorable : Nat → List ManifestAudioEntry → Bool
  | _, [] => true
  | i, entry :: rest => restorable env archive i entry && allRestorable (i + 1) rest

/-- The notes that the entries become. -/
def importedNotes : Nat → Nat → List ManifestAudioEntry → List AudioNote
  | _, _, [] => []
  | i, seq, entry :: rest =>
    importedNote env i seq entry :: importedNotes (i + 1) (seqAfter seq entry) rest

/-- The stored assets when the loop ends, at its end or at the first entry that fails. -/
def restoredAssets : Nat → Nat → List ManifestAudioEntry → Assoc String AudioAsset →
    Assoc String AudioAsset
  | _, _, [], assets => assets
  | i, seq, entry :: rest, assets =>
    if restorable env archive i entry then
      restoredAssets (i + 1) (seqAfter seq entry) rest (assetsAfter env archive i seq entry assets)
    else assetsAfter env archive i seq entry assets

end

theorem get_assetsAfter (env : Env) (archive : Archive) (i seq : Nat)
    (entry : ManifestAudioEntry) (assets : Assoc String AudioAsset) (id : String) :
    (assetsAfter env archive i seq entry assets).get id =
      if id = audioId (env.clock (.putAudio i)) seq then
        (storedRecording? env archive i entry).or (assets.get id)
      else assets.get id := by
  rcases h : storedRecording? env archive i entry with _ | asset
  · simp [assetsAfter, h]
  · simp [assetsAfter, h, Assoc.get_set]

theorem le_seqAfter (seq : Nat) (entry : ManifestAudioEntry) : seq ≤ seqAfter seq entry := by
  unfold seqAfter
  split_ifs <;> omega

/-- An id with a counter below the loop's is left alone. -/
theorem get_restoredAssets_of_lt (env : Env) (archive : Archive) (now : DateTime) {n : Nat}
    (entries : List ManifestAudioEntry) (i seq : Nat) (assets : Assoc String AudioAsset)
    (h : n < seq) : (restoredAssets env archive i seq entries assets).get (audioId now n) =
      assets.get (audioId now n) := by
  induction entries generalizing i seq assets with
  | nil => rfl
  | cons entry rest ih =>
    have hid : audioId now n ≠ audioId (env.clock (.putAudio i)) seq := fun heq =>
      absurd (audioId_injective_seq heq) (by omega)
    have hhere : (assetsAfter env archive i seq entry assets).get (audioId now n) =
        assets.get (audioId now n) := by rw [get_assetsAfter, if_neg hid]
    rw [restoredAssets]
    split_ifs
    · rw [ih _ _ _ (lt_of_lt_of_le h (le_seqAfter seq entry)), hhere]
    · exact hhere

@[simp] theorem withAudio_withAudio (d : Device) (assets assets' : Assoc String AudioAsset)
    (seq seq' : Nat) (files files' : Assoc String Content) :
    (d.withAudio assets seq files).withAudio assets' seq' files' =
      d.withAudio assets' seq' files' := rfl

theorem exec_restoreAudio (env : Env) (archive : Archive) (i : Nat)
    (entries : List ManifestAudioEntry) (d : Device) :
    ∃ r files seq, (restoreAudio env archive i entries).exec d =
      (r, d.withAudio (restoredAssets env archive i d.audioSeq entries d.audioAssets) seq files) ∧
      if allRestorable env archive i entries then
        r = .ok (importedNotes env i d.audioSeq entries) ∧ seq = entries.foldl seqAfter d.audioSeq
      else ∃ e, r = .error e := by
  induction entries generalizing i d with
  | nil => exact ⟨_, d.files, d.audioSeq, rfl, by simp [allRestorable, importedNotes]⟩
  | cons entry rest ih =>
    obtain ⟨r, files, seq, hexec, hr⟩ := exec_restoreNote env archive i entry d
    by_cases hentry : restorable env archive i entry = true
    · rw [if_pos hentry] at hr
      obtain ⟨rfl, rfl⟩ := hr
      obtain ⟨r', files', seq', hexec', hr'⟩ := ih (i + 1) (d.withAudio
        (assetsAfter env archive i d.audioSeq entry d.audioAssets) (seqAfter d.audioSeq entry) files)
      refine ⟨r'.map (importedNote env i d.audioSeq entry :: ·), files', seq', ?_, ?_⟩
      · rw [restoreAudio, exec_bind_of_ok hexec, exec_bind, hexec', restoredAssets, if_pos hentry]
        cases r' <;> rfl
      · rw [allRestorable, hentry, Bool.true_and]
        by_cases hrest : allRestorable env archive (i + 1) rest = true
        · rw [if_pos hrest] at hr' ⊢
          rw [hr'.1, hr'.2]
          exact ⟨rfl, rfl⟩
        · rw [if_neg hrest] at hr' ⊢
          obtain ⟨e, rfl⟩ := hr'
          exact ⟨e, rfl⟩
    · rw [if_neg hentry] at hr
      obtain ⟨e, rfl⟩ := hr
      refine ⟨.error e, files, seq, ?_, by simp [allRestorable, hentry]⟩
      rw [restoreAudio, exec_bind_of_error hexec, restoredAssets, if_neg hentry]

/-- What the loop over the stale assets leaves of the assets: those that could be deleted are
gone. -/
def keptAssets (env : Env) (stale : List String) (assets : Assoc String AudioAsset) :
    Assoc String AudioAsset :=
  stale.foldl (fun assets id => if env.fails (.deleteAsset id) then assets else assets.erase id)
    assets

theorem get_keptAssets (env : Env) (stale : List String) (assets : Assoc String AudioAsset)
    (id : String) : (keptAssets env stale assets).get id =
      if id ∈ stale ∧ env.fails (.deleteAsset id) = false then none else assets.get id := by
  induction stale generalizing assets with
  | nil => simp [keptAssets]
  | cons a rest ih =>
    rw [keptAssets, List.foldl_cons, ← keptAssets, ih]
    cases ha : env.fails (.deleteAsset a)
    · by_cases hid : id = a
      · simp [hid, ha]
      · simp [hid]
    · by_cases hid : id = a
      · simp [hid, ha]
      · simp [hid]

/-- The loop over the stale assets never fails. -/
theorem exec_deleteStaleAssets (env : Env) (stale : List String) (d : Device) :
    (deleteStaleAssets env stale).exec d =
      (.ok (), { d with audioAssets := keptAssets env stale d.audioAssets }) := by
  induction stale generalizing d with
  | nil => rfl
  | cons a rest ih =>
    rw [deleteStaleAssets, exec_attempt_bind, ih]
    cases ha : env.fails (.deleteAsset a) <;> simp [deleteAudio, Env.await, ha, keptAssets]

end Duet
