import Duet.ReviewSync.Steps

/-!
# One import

How far applying a manifest gets, the state it leaves at each stage, and what a successful import
leaves behind.

## Main results

* `exec_applyManifest` — applying a manifest stops at `stageReached`, in the state `applied` says.
* `importBundle_ok` — a successful import drops a stale bundle or runs through every stage.
* `annotationsFor_imported`, `lastApplied_imported`, `audioAssets_imported` — the parts of the
  device after it.
-/

namespace Duet

open Lib Effect

variable {sha256 : Content → String} {env : Env} {archive : Archive} {manifest : ReviewManifest}
  {bundle : Option Archive} {d d' : Device}

/-! ## Applying a manifest -/

/-- How far applying a manifest gets. -/
inductive Stage where
  | started | restoring | replacing | marking | reporting | done
  deriving DecidableEq, Repr

/-- The import has a change to report: the manifest carries strokes or live notes. -/
def ReviewManifest.reports (manifest : ReviewManifest) : Bool :=
  !manifest.strokes.isEmpty || manifest.audioEntries.any fun entry => !entry.note.isTombstoned

/-- The stage at which applying the manifest stops. -/
def stageReached (env : Env) (archive : Archive) (manifest : ReviewManifest) : Stage :=
  if env.fails .audioDirectory then .started
  else if !allRestorable env archive 0 manifest.audioEntries then .restoring
  else if env.fails .persistAnnotations then .replacing
  else if env.fails .markApplied then .marking
  else if (manifest.reports && env.fails .notify) ||
      (DateTime.fromMillisecondsSinceEpoch manifest.exportedAtMillis).isNone then .reporting
  else .done

namespace Device

variable (env : Env) (archive : Archive) (manifest : ReviewManifest) (d : Device)
  (role : PieceRole) (notes : List AudioNote)

/-- The assets of the author's live notes before the import. -/
def staleAssetIds : List String :=
  (((d.annotationsFor manifest.pieceId).withoutTombstones.notesBy manifest.authorId).map
    (·.audioAssetId)).eraseDups

/-- The annotations of the piece with the author's slice replaced. -/
def sliceReplaced : PieceAnnotations :=
  { d.annotationsFor manifest.pieceId with pieceId := manifest.pieceId }.replaceSlice
    ⟨manifest.authorId, role, manifest.strokes, none⟩ notes

/-- The slice replaced, in memory and in the preferences, and the stale assets deleted. -/
def replaced : Device :=
  let updated := d.sliceReplaced manifest role notes
  { (d.cacheAnnotations manifest.pieceId updated).storeAnnotations manifest.pieceId updated with
    audioAssets := keptAssets env (d.staleAssetIds manifest) d.audioAssets }

/-- The mark of the manifest's author advanced. -/
def markApplied : Device :=
  { d with storage := { d.storage with
      lastApplied := d.storage.lastApplied.set (lastAppliedKey manifest.pieceId manifest.authorId)
        manifest.exportedAtMillis } }

/-- The recordings of the manifest restored. -/
def restored (seq : Nat) (files : Assoc String Content) : Device :=
  d.withAudio (restoredAssets env archive 0 d.audioSeq manifest.audioEntries d.audioAssets) seq
    files

/-- The device, its recordings restored, when the import stops at `stage`. -/
def atStage : Stage → Device
  | .started | .restoring => d
  | .replacing => d.cacheAnnotations manifest.pieceId (d.sliceReplaced manifest role notes)
  | .marking => d.replaced env manifest role notes
  | .reporting | .done => (d.replaced env manifest role notes).markApplied manifest

/-- The notes of the manifest as the device imports them. -/
def notesImported : List AudioNote := importedNotes env 0 d.audioSeq manifest.audioEntries

/-- The device when applying the manifest stops at `stage`. -/
def applied (seq : Nat) (files : Assoc String Content) : Stage → Device
  | .started => d
  | stage => (d.restored env archive manifest seq files).atStage env manifest role
      (d.notesImported env manifest) stage

end Device

theorem exec_replaceAuthorSlice (env : Env) (pieceId authorId : String) (role : PieceRole)
    (strokes : List InkStroke) (notes : List AudioNote) (d : Device) :
    (replaceAuthorSlice env pieceId authorId role strokes notes).exec d =
      let updated := { d.annotationsFor pieceId with pieceId := pieceId }.replaceSlice
        ⟨authorId, role, strokes, none⟩ notes
      if env.fails .persistAnnotations then
        (.error (.platform .persistAnnotations), d.cacheAnnotations pieceId updated)
      else (.ok (), (d.cacheAnnotations pieceId updated).storeAnnotations pieceId updated) := by
  rw [replaceAuthorSlice, exec_bind_of_ok (exec_loadAnnotations pieceId d), exec_emitAnnotations]
  simp [Device.cacheAnnotations]

/-- The last step of an import reports and returns, or fails with the state as it is. -/
theorem exec_reportImport (env : Env) (manifest : ReviewManifest) (piece : Piece)
    (live : List AudioNote) (d : Device) :
    ∃ r, (reportImport env manifest piece live).exec d = (r, d) ∧
      if ((manifest.strokes ≠ [] ∨ live ≠ []) ∧ env.fails .notify = true) ∨
        DateTime.fromMillisecondsSinceEpoch manifest.exportedAtMillis = none
      then ∃ e, r = .error e else ∃ summary, r = .ok summary := by
  by_cases hreport : manifest.strokes ≠ [] ∨ live ≠ [] <;> cases hnot : env.fails .notify <;>
    rcases hmillis : DateTime.fromMillisecondsSinceEpoch manifest.exportedAtMillis with _ | t <;>
    simp only [reportImport, hreport, hmillis, if_true, if_false] <;>
    simp [exec_bind, Env.await, hnot]

/-- The slice is replaced first; the stale assets are deleted next, which cannot fail. -/
theorem exec_finishImport_replace (env : Env) (manifest : ReviewManifest) (piece : Piece)
    (notes : List AudioNote) (d : Device) :
    (finishImport env manifest piece notes).exec d =
      if env.fails .persistAnnotations then
        (.error (.platform .persistAnnotations),
          d.atStage env manifest (roleOf piece manifest.authorId) notes .replacing)
      else
        (setLastApplied env manifest.pieceId manifest.authorId manifest.exportedAtMillis >>= fun _ =>
          reportImport env manifest piece (notes.filter fun n => !n.isTombstoned)).exec
          (d.replaced env manifest (roleOf piece manifest.authorId) notes) := by
  let cached := d.cacheAnnotations manifest.pieceId (d.annotationsFor manifest.pieceId)
  have hwatch : (finishImport env manifest piece notes).exec d =
      (replaceAuthorSlice env manifest.pieceId manifest.authorId (roleOf piece manifest.authorId)
          manifest.strokes notes >>= fun _ => do
        deleteStaleAssets env (d.staleAssetIds manifest)
        setLastApplied env manifest.pieceId manifest.authorId manifest.exportedAtMillis
        reportImport env manifest piece (notes.filter fun n => !n.isTombstoned)).exec cached := rfl
  have hupdated : { cached.annotationsFor manifest.pieceId with
        pieceId := manifest.pieceId }.replaceSlice ⟨manifest.authorId,
          roleOf piece manifest.authorId, manifest.strokes, none⟩ notes =
      d.sliceReplaced manifest (roleOf piece manifest.authorId) notes := by
    simp [cached, Device.sliceReplaced]
  have hreplace := exec_replaceAuthorSlice env manifest.pieceId manifest.authorId
    (roleOf piece manifest.authorId) manifest.strokes notes cached
  rw [hupdated] at hreplace
  have hcached : ∀ updated, cached.cacheAnnotations manifest.pieceId updated =
      d.cacheAnnotations manifest.pieceId updated := by
    intro updated
    simp [cached, Device.cacheAnnotations]
  simp only [hcached] at hreplace
  split_ifs with hpersist
  · rw [if_pos hpersist] at hreplace
    rw [hwatch, exec_bind_of_error hreplace]
    rfl
  · rw [if_neg hpersist] at hreplace
    rw [hwatch, exec_bind_of_ok hreplace, exec_bind_of_ok (exec_deleteStaleAssets _ _ _)]
    rfl

/-- Once the recordings are restored, the import stops at its last stages. -/
theorem exec_finishImport (env : Env) (archive : Archive) (manifest : ReviewManifest)
    (piece : Piece) (notes : List AudioNote) (d : Device)
    (hlive : (notes.filter fun n => !n.isTombstoned) = [] ↔
      (manifest.audioEntries.any fun entry => !entry.note.isTombstoned) = false)
    (hdir : env.fails .audioDirectory = false)
    (hall : allRestorable env archive 0 manifest.audioEntries = true) :
    ∃ r, (finishImport env manifest piece notes).exec d =
      (r, d.atStage env manifest (roleOf piece manifest.authorId) notes
        (stageReached env archive manifest)) ∧
      if stageReached env archive manifest = .done then ∃ summary, r = .ok summary
      else ∃ e, r = .error e := by
  have hreplace := exec_finishImport_replace env manifest piece notes d
  cases hpersist : env.fails .persistAnnotations
  case true =>
    have hstage : stageReached env archive manifest = .replacing := by
      simp [stageReached, hdir, hall, hpersist]
    refine ⟨.error (.platform .persistAnnotations), ?_, by simp [hstage]⟩
    rw [hreplace, hpersist, if_pos rfl, hstage]
  rw [hpersist, if_neg Bool.false_ne_true] at hreplace
  cases hmark : env.fails .markApplied
  case true =>
    have hstage : stageReached env archive manifest = .marking := by
      simp [stageReached, hdir, hall, hpersist, hmark]
    refine ⟨.error (.platform .markApplied), ?_, by simp [hstage]⟩
    rw [hreplace, hstage]
    simp [setLastApplied, exec_bind, Env.await, hmark, Device.atStage]
  let marked := (d.replaced env manifest (roleOf piece manifest.authorId) notes).markApplied manifest
  have hmarked : (finishImport env manifest piece notes).exec d =
      (reportImport env manifest piece (notes.filter fun n => !n.isTombstoned)).exec marked := by
    rw [hreplace, exec_bind_of_ok (a := ()) (t := marked)]
    simp [setLastApplied, exec_bind, Env.await, hmark, marked, Device.markApplied]
  obtain ⟨r, hreport, hr⟩ := exec_reportImport env manifest piece
    (notes.filter fun n => !n.isTombstoned) marked
  refine ⟨r, ?_, ?_⟩
  · rw [hmarked, hreport]
    have hlast : stageReached env archive manifest = .reporting ∨
        stageReached env archive manifest = .done := by
      simp only [stageReached, hdir, hall, hpersist, hmark]
      grind
    rcases hlast with hlast | hlast <;> rw [hlast] <;> rfl
  · have hreports : (manifest.strokes ≠ [] ∨ (notes.filter fun n => !n.isTombstoned) ≠ []) ↔
        manifest.reports = true := by
      rw [ReviewManifest.reports, ne_eq (notes.filter _), hlive]
      simp
    simp only [hreports] at hr
    have hstage : stageReached env archive manifest = .done ↔
        ¬((manifest.reports = true ∧ env.fails .notify = true) ∨
          DateTime.fromMillisecondsSinceEpoch manifest.exportedAtMillis = none) := by
      simp [stageReached, hdir, hall, hpersist, hmark]
    by_cases hfails : (manifest.reports = true ∧ env.fails .notify = true) ∨
        DateTime.fromMillisecondsSinceEpoch manifest.exportedAtMillis = none
    · rw [if_pos hfails] at hr
      rwa [if_neg fun h => hstage.mp h hfails]
    · rw [if_neg hfails] at hr
      rwa [if_pos (hstage.mpr hfails)]

/-- Restoring the recordings keeps each note live or tombstoned. -/
theorem filter_importedNotes_eq_nil (env : Env) (i seq : Nat) (entries : List ManifestAudioEntry) :
    ((importedNotes env i seq entries).filter fun n => !n.isTombstoned) = [] ↔
      (entries.any fun entry => !entry.note.isTombstoned) = false := by
  induction entries generalizing i seq with
  | nil => simp [importedNotes]
  | cons entry rest ih =>
    have hnote : (importedNote env i seq entry).isTombstoned = entry.note.isTombstoned := by
      unfold importedNote
      split_ifs <;> simp
    cases h : entry.note.isTombstoned <;> simp [importedNotes, hnote, h, ih]

/-- Applying a manifest stops at `stageReached`, and succeeds when that is the last stage. -/
theorem exec_applyManifest (env : Env) (archive : Archive) (manifest : ReviewManifest)
    (piece : Piece) (d : Device) :
    ∃ r files seq, (applyManifest env archive manifest piece).exec d =
      (r, d.applied env archive manifest (roleOf piece manifest.authorId) seq files
        (stageReached env archive manifest)) ∧
      if stageReached env archive manifest = .done then
        (∃ summary, r = .ok summary) ∧ seq = manifest.audioEntries.foldl seqAfter d.audioSeq
      else ∃ e, r = .error e := by
  cases hdir : env.fails .audioDirectory
  case true =>
    have hstage : stageReached env archive manifest = .started := by simp [stageReached, hdir]
    refine ⟨.error (.platform .audioDirectory), d.files, d.audioSeq, ?_, by simp [hstage]⟩
    rw [applyManifest, exec_bind_of_error (Env.exec_await_of_fails hdir d), hstage]
    rfl
  obtain ⟨r, files, seq, hrestore, hr⟩ :=
    exec_restoreAudio env archive 0 manifest.audioEntries d
  cases hall : allRestorable env archive 0 manifest.audioEntries
  case false =>
    have hstage : stageReached env archive manifest = .restoring := by
      simp [stageReached, hdir, hall]
    rw [hall, if_neg Bool.false_ne_true] at hr
    obtain ⟨e, rfl⟩ := hr
    refine ⟨.error e, files, seq, ?_, by simp [hstage]⟩
    rw [applyManifest, exec_bind_of_ok (Env.exec_await_of_not_fails hdir d),
      exec_bind_of_error hrestore, hstage]
    rfl
  rw [if_pos hall] at hr
  obtain ⟨rfl, rfl⟩ := hr
  obtain ⟨r, hfinish, hr⟩ := exec_finishImport env archive manifest piece
    (d.notesImported env manifest)
    (d.restored env archive manifest (manifest.audioEntries.foldl seqAfter d.audioSeq) files)
    (filter_importedNotes_eq_nil env 0 d.audioSeq manifest.audioEntries) hdir hall
  refine ⟨r, files, manifest.audioEntries.foldl seqAfter d.audioSeq, ?_, ?_⟩
  · rw [applyManifest, exec_bind_of_ok (Env.exec_await_of_not_fails hdir d),
      exec_bind_of_ok hrestore]
    refine hfinish.trans ?_
    have hstage : stageReached env archive manifest ≠ .started := by
      simp only [stageReached, hdir, hall]
      grind
    rcases h : stageReached env archive manifest <;> first | rfl | exact absurd h hstage
  · split_ifs at hr ⊢ with hstage
    · exact ⟨hr, rfl⟩
    · exact hr

/-! ## A whole import -/

/-- The bundle's piece on the device after `resolvePiece`: the one it held, or a new one. -/
def Resolves (sha256 : Content → String) (env : Env) (archive : Archive)
    (manifest : ReviewManifest) (d : Device) (piece : Piece) (d₁ : Device) : Prop :=
  (d.findPiece manifest.pieceId = some piece ∧
    piece.basePdfChecksum = manifest.basePdfChecksum ∧ d₁ = d) ∨
  (d.findPiece manifest.pieceId = none ∧
    registeredPiece? sha256 env manifest archive = some piece ∧
    ∃ files, d₁ = d.registerPiece piece files)

theorem exec_resolvePiece_of_held (sha256 : Content → String) (env : Env) (archive : Archive)
    {piece : Piece} (h : d.findPiece manifest.pieceId = some piece) :
    if piece.basePdfChecksum = manifest.basePdfChecksum then
      (resolvePiece sha256 env manifest archive).exec d = (.ok piece, d)
    else ∃ e, (resolvePiece sha256 env manifest archive).exec d = (.error e, d) := by
  by_cases hsum : piece.basePdfChecksum = manifest.basePdfChecksum <;>
    simp [resolvePiece, Device.getPiece, h, hsum]

theorem exec_resolvePiece_of_unknown (h : d.findPiece manifest.pieceId = none) :
    (resolvePiece sha256 env manifest archive).exec d =
      (importPieceFromBundle sha256 env manifest archive).exec d := by
  simp [resolvePiece, Device.getPiece, h]

theorem resolvePiece_ok {piece : Piece}
    (h : (resolvePiece sha256 env manifest archive).exec d = (.ok piece, d')) :
    Resolves sha256 env archive manifest d piece d' := by
  rcases hfind : d.findPiece manifest.pieceId with _ | held
  · rw [exec_resolvePiece_of_unknown hfind] at h
    rcases importPieceFromBundle_cases sha256 env archive hfind with
      ⟨-, e, files, hexec⟩ | ⟨piece', hpiece, hends⟩
    · simp [h] at hexec
    · rw [h] at hends
      rcases hends with ⟨-, e, files, heq⟩ | ⟨-, -, e, files, heq⟩ | ⟨-, -, -, files, heq⟩
      · simp at heq
      · simp at heq
      · simp only [Prod.mk.injEq, Except.ok.injEq] at heq
        obtain ⟨rfl, rfl⟩ := heq
        exact .inr ⟨hfind, hpiece, files, rfl⟩
  · have hheld := exec_resolvePiece_of_held sha256 env archive hfind
    split_ifs at hheld with hsum
    · rw [hheld] at h
      simp only [Prod.mk.injEq, Except.ok.injEq] at h
      obtain ⟨rfl, rfl⟩ := h
      exact .inl ⟨hfind, hsum, rfl⟩
    · obtain ⟨e, he⟩ := hheld
      simp [he] at h

theorem exec_importBundle_of_not_opened (sha256 : Content → String)
    (h : opened? env bundle = none) (d : Device) :
    ∃ e, (importBundle sha256 env bundle).exec d = (.error e, d) := by
  rcases exec_openBundle env bundle d with ⟨o, ho, -⟩ | ⟨-, e, hexec⟩
  · simp [h] at ho
  · exact ⟨e, exec_bind_of_error hexec _⟩

theorem exec_importBundle_of_opened (h : opened? env bundle = some (archive, manifest)) :
    (importBundle sha256 env bundle).exec d =
      (resolvePiece sha256 env manifest archive >>= fun piece =>
        applyUnlessStale env archive manifest piece).exec d :=
  exec_bind_of_ok (openBundle_ok.mpr ⟨h, rfl⟩) _

/-- The bundle's revision is not newer than the one the device has applied. -/
def ReviewManifest.StaleOn (manifest : ReviewManifest) (d : Device) : Prop :=
  manifest.exportedAtMillis ≤ d.lastAppliedAt manifest.pieceId manifest.authorId

instance : Decidable (manifest.StaleOn d) := inferInstanceAs (Decidable (_ ≤ _))

theorem exec_applyUnlessStale_of_stale (env : Env) (archive : Archive) (piece : Piece)
    (h : manifest.StaleOn d) :
    if (DateTime.fromMillisecondsSinceEpoch manifest.exportedAtMillis).isNone then
      ∃ e, (applyUnlessStale env archive manifest piece).exec d = (.error e, d)
    else ∃ summary, (applyUnlessStale env archive manifest piece).exec d = (.ok summary, d) := by
  have hle : manifest.exportedAtMillis ≤ d.lastAppliedAt manifest.pieceId manifest.authorId := h
  rcases hmillis : DateTime.fromMillisecondsSinceEpoch manifest.exportedAtMillis with _ | t <;>
    simp [applyUnlessStale, hle, hmillis]

theorem exec_applyUnlessStale_of_newer {piece : Piece} (h : ¬manifest.StaleOn d) :
    (applyUnlessStale env archive manifest piece).exec d =
      (applyManifest env archive manifest piece).exec d := by
  have hlt : ¬manifest.exportedAtMillis ≤ d.lastAppliedAt manifest.pieceId manifest.authorId := h
  simp [applyUnlessStale, hlt]

/-- The device after a bundle that is not stale has been applied to it. -/
def Device.imported (d : Device) (env : Env) (archive : Archive) (manifest : ReviewManifest)
    (piece : Piece) (files : Assoc String Content) : Device :=
  d.applied env archive manifest (roleOf piece manifest.authorId)
    (manifest.audioEntries.foldl seqAfter d.audioSeq) files .done

/-- A successful import opens its bundle, resolves the piece, and either drops the bundle as stale
or runs through every stage. -/
theorem importBundle_ok {summary : ReviewBundleSummary}
    (h : (importBundle sha256 env bundle).exec d = (.ok summary, d')) :
    ∃ archive manifest piece d₁, opened? env bundle = some (archive, manifest) ∧
      Resolves sha256 env archive manifest d piece d₁ ∧
      ((manifest.StaleOn d₁ ∧ d' = d₁) ∨
        (¬manifest.StaleOn d₁ ∧ stageReached env archive manifest = .done ∧
          ∃ files, d' = d₁.imported env archive manifest piece files)) := by
  rcases hopen : opened? env bundle with _ | ⟨archive, manifest⟩
  · obtain ⟨e, he⟩ := exec_importBundle_of_not_opened sha256 hopen d
    simp [he] at h
  rw [exec_importBundle_of_opened hopen, exec_bind_ok] at h
  obtain ⟨piece, d₁, hresolve, happly⟩ := h
  refine ⟨archive, manifest, piece, d₁, rfl, resolvePiece_ok hresolve, ?_⟩
  by_cases hstale : manifest.StaleOn d₁
  · have hexec := exec_applyUnlessStale_of_stale env archive piece hstale
    split_ifs at hexec
    · obtain ⟨e, he⟩ := hexec
      simp [he] at happly
    · obtain ⟨summary', hs⟩ := hexec
      rw [hs] at happly
      exact .inl ⟨hstale, (congrArg Prod.snd happly).symm⟩
  · rw [exec_applyUnlessStale_of_newer hstale] at happly
    obtain ⟨r, files, seq, hexec, hr⟩ := exec_applyManifest env archive manifest piece d₁
    rw [happly] at hexec
    split_ifs at hr with hstage
    · obtain ⟨-, rfl⟩ := hr
      rw [hstage] at hexec
      exact .inr ⟨hstale, hstage, files, congrArg Prod.snd hexec⟩
    · obtain ⟨e, rfl⟩ := hr
      simp at hexec

/-! ## Every outcome of an import -/

/-- Registering the bundle's piece ends without a failure. -/
def RegistersCleanly (env : Env) (manifest : ReviewManifest) (piece : Piece) : Prop :=
  env.fails .persistPieces = false ∧ env.fails .removePdf = false ∧
    piece.basePdfChecksum = manifest.basePdfChecksum

/-- With the piece resolved, the import runs to its end. -/
def RunsToEnd (env : Env) (archive : Archive) (manifest : ReviewManifest) (d : Device) : Prop :=
  if manifest.StaleOn d then
    (DateTime.fromMillisecondsSinceEpoch manifest.exportedAtMillis).isSome = true
  else stageReached env archive manifest = .done

/-- The bundle's piece is held with the same PDF, or the bundle registers it. -/
def PieceAvailable (sha256 : Content → String) (env : Env) (archive : Archive)
    (manifest : ReviewManifest) (d : Device) : Prop :=
  (∃ piece, d.findPiece manifest.pieceId = some piece ∧
    piece.basePdfChecksum = manifest.basePdfChecksum) ∨
  (d.findPiece manifest.pieceId = none ∧ ∃ piece,
    registeredPiece? sha256 env manifest archive = some piece ∧
      RegistersCleanly env manifest piece)

/-- What resolving a piece leads to: a failure with the stores as they were; a failure with the
piece registered; or a success. -/
theorem resolvePiece_cases (sha256 : Content → String) (env : Env) (archive : Archive)
    (manifest : ReviewManifest) (d : Device) :
    (∃ piece, d.findPiece manifest.pieceId = some piece ∧
      piece.basePdfChecksum ≠ manifest.basePdfChecksum ∧
      ∃ e, (resolvePiece sha256 env manifest archive).exec d = (.error e, d)) ∨
    (∃ piece, d.findPiece manifest.pieceId = some piece ∧
      piece.basePdfChecksum = manifest.basePdfChecksum ∧
      (resolvePiece sha256 env manifest archive).exec d = (.ok piece, d)) ∨
    (d.findPiece manifest.pieceId = none ∧
      registeredPiece? sha256 env manifest archive = none ∧
      ∃ e files, (resolvePiece sha256 env manifest archive).exec d =
        (.error e, { d with files := files })) ∨
    (d.findPiece manifest.pieceId = none ∧ ∃ piece,
      registeredPiece? sha256 env manifest archive = some piece ∧
        RegistrationEnds env manifest d piece
          ((resolvePiece sha256 env manifest archive).exec d)) := by
  rcases hfind : d.findPiece manifest.pieceId with _ | piece
  · rw [exec_resolvePiece_of_unknown hfind]
    rcases importPieceFromBundle_cases sha256 env archive hfind with h | h
    · exact .inr (.inr (.inl ⟨rfl, h⟩))
    · exact .inr (.inr (.inr ⟨rfl, h⟩))
  · have hheld := exec_resolvePiece_of_held sha256 env archive hfind
    split_ifs at hheld with hsum
    · exact .inr (.inl ⟨piece, rfl, hsum, hheld⟩)
    · exact .inl ⟨piece, rfl, hsum, hheld⟩

/-- With the piece resolved, the import succeeds exactly when it runs to its end. -/
theorem applyUnlessStale_ok_iff (env : Env) (archive : Archive) (manifest : ReviewManifest)
    (piece : Piece) (d : Device) :
    (∃ summary d', (applyUnlessStale env archive manifest piece).exec d = (.ok summary, d')) ↔
      RunsToEnd env archive manifest d := by
  by_cases hstale : manifest.StaleOn d
  · have hexec := exec_applyUnlessStale_of_stale env archive piece hstale
    rw [RunsToEnd, if_pos hstale]
    rcases hmillis : DateTime.fromMillisecondsSinceEpoch manifest.exportedAtMillis with _ | t
    · simp only [hmillis, Option.isNone_none, if_true] at hexec
      obtain ⟨e, he⟩ := hexec
      simp [he]
    · simp only [hmillis, Option.isNone_some, Bool.false_eq_true, if_false] at hexec
      obtain ⟨summary, hs⟩ := hexec
      exact iff_of_true ⟨summary, d, hs⟩ rfl
  · rw [exec_applyUnlessStale_of_newer hstale, RunsToEnd, if_neg hstale]
    obtain ⟨r, files, seq, hexec, hr⟩ := exec_applyManifest env archive manifest piece d
    split_ifs at hr with hstage
    · obtain ⟨⟨summary, rfl⟩, -⟩ := hr
      exact iff_of_true ⟨summary, _, hexec⟩ hstage
    · obtain ⟨e, rfl⟩ := hr
      simp [hexec, hstage]

theorem pieces_applied {role : PieceRole} {seq : Nat} {files : Assoc String Content}
    (stage : Stage) : (d.applied env archive manifest role seq files stage).pieces = d.pieces := by
  cases stage <;> rfl

theorem pieces_applyUnlessStale (env : Env) (archive : Archive) (manifest : ReviewManifest)
    (piece : Piece) (d : Device) :
    ((applyUnlessStale env archive manifest piece).exec d).2.pieces = d.pieces := by
  by_cases hstale : manifest.StaleOn d
  · have hexec := exec_applyUnlessStale_of_stale env archive piece hstale
    split_ifs at hexec <;> obtain ⟨_, h⟩ := hexec <;> rw [h]
  · obtain ⟨r, files, seq, hexec, -⟩ := exec_applyManifest env archive manifest piece d
    rw [exec_applyUnlessStale_of_newer hstale, hexec]
    exact pieces_applied _

/-! ## The parts of a device that an import has been applied to -/

section

variable {piece : Piece} {files : Assoc String Content}

@[simp] theorem pieces_imported :
    (d.imported env archive manifest piece files).pieces = d.pieces := rfl

@[simp] theorem storage_imported_baseShared :
    (d.imported env archive manifest piece files).storage.baseShared = d.storage.baseShared := rfl

@[simp] theorem annotationsFor_registerPiece (piece : Piece) (files : Assoc String Content)
    (pieceId : String) :
    (d.registerPiece piece files).annotationsFor pieceId = d.annotationsFor pieceId := rfl

@[simp] theorem lastAppliedAt_registerPiece (piece : Piece) (files : Assoc String Content)
    (pieceId authorId : String) :
    (d.registerPiece piece files).lastAppliedAt pieceId authorId =
      d.lastAppliedAt pieceId authorId := rfl

/-- The author's slice of the piece is replaced; other pieces are untouched. -/
theorem annotationsFor_imported (pieceId : String) :
    (d.imported env archive manifest piece files).annotationsFor pieceId =
      if pieceId = manifest.pieceId then
        d.sliceReplaced manifest (roleOf piece manifest.authorId) (d.notesImported env manifest)
      else d.annotationsFor pieceId := by
  let updated := d.sliceReplaced manifest (roleOf piece manifest.authorId)
    (d.notesImported env manifest)
  change ((d.cacheAnnotations manifest.pieceId updated).storeAnnotations manifest.pieceId
    updated).annotationsFor pieceId = _
  simp [updated]

theorem lastApplied_imported (key : String) :
    (d.imported env archive manifest piece files).storage.lastApplied.get key =
      if key = lastAppliedKey manifest.pieceId manifest.authorId then
        some manifest.exportedAtMillis
      else d.storage.lastApplied.get key := by
  simp [Device.imported, Device.applied, Device.atStage, Device.markApplied, Device.replaced,
    Device.restored, Device.withAudio, Device.storeAnnotations, Device.cacheAnnotations,
    Assoc.get_set]

theorem audioAssets_imported :
    (d.imported env archive manifest piece files).audioAssets =
      keptAssets env (d.staleAssetIds manifest)
        (restoredAssets env archive 0 d.audioSeq manifest.audioEntries d.audioAssets) := rfl

end

/-- The import gets to replacing the author's slice: its piece is available, it is not stale, and
its recordings are restored. -/
def ReplacesSlice (sha256 : Content → String) (env : Env) (archive : Archive)
    (manifest : ReviewManifest) (d : Device) : Prop :=
  PieceAvailable sha256 env archive manifest d ∧ ¬manifest.StaleOn d ∧
    env.fails .audioDirectory = false ∧ allRestorable env archive 0 manifest.audioEntries = true

theorem annotationsFor_replaced (env : Env) (manifest : ReviewManifest) (d : Device)
    (role : PieceRole) (notes : List AudioNote) (pieceId : String) :
    (d.replaced env manifest role notes).annotationsFor pieceId =
      (d.cacheAnnotations manifest.pieceId (d.sliceReplaced manifest role notes)).annotationsFor
        pieceId := by
  rw [← Device.annotationsFor_storeAnnotations_cached]
  rfl

/-- Stopping at a stage leaves the annotations alone, or replaces the author's slice, depending on
whether the recordings have been restored. -/
theorem annotationsFor_applied (role : PieceRole) (seq : Nat) (files : Assoc String Content)
    (pieceId : String) :
    (d.applied env archive manifest role seq files
      (stageReached env archive manifest)).annotationsFor pieceId =
      if env.fails .audioDirectory = false ∧
          allRestorable env archive 0 manifest.audioEntries = true ∧ pieceId = manifest.pieceId then
        d.sliceReplaced manifest role (d.notesImported env manifest)
      else d.annotationsFor pieceId := by
  let restored := d.restored env archive manifest seq files
  have hslice : ∀ stage, stage ≠ .started → stage ≠ .restoring →
      (d.applied env archive manifest role seq files stage).annotationsFor pieceId =
        if pieceId = manifest.pieceId then
          d.sliceReplaced manifest role (d.notesImported env manifest)
        else d.annotationsFor pieceId := by
    intro stage hs hr
    have hcache : (restored.cacheAnnotations manifest.pieceId
        (restored.sliceReplaced manifest role (d.notesImported env manifest))).annotationsFor
          pieceId = if pieceId = manifest.pieceId then
            d.sliceReplaced manifest role (d.notesImported env manifest)
          else d.annotationsFor pieceId := Device.annotationsFor_cacheAnnotations _ _ _ _
    cases stage with
    | started => exact absurd rfl hs
    | restoring => exact absurd rfl hr
    | replacing => exact hcache
    | marking | reporting | done =>
      exact (annotationsFor_replaced env manifest restored role _ pieceId).trans hcache
  by_cases hdir : env.fails .audioDirectory = false
  · by_cases hall : allRestorable env archive 0 manifest.audioEntries = true
    · have hlate : stageReached env archive manifest ≠ .started ∧
          stageReached env archive manifest ≠ .restoring := by
        simp only [stageReached, hdir, hall]
        grind
      rw [hslice _ hlate.1 hlate.2]
      simp [hdir, hall]
    · have hstage : stageReached env archive manifest = .restoring := by
        simp [stageReached, hdir, hall]
      rw [hstage, if_neg (by simp [hall])]
      rfl
  · have hstage : stageReached env archive manifest = .started := by
      simp [stageReached, hdir]
    rw [hstage, if_neg (by simp [hdir])]
    rfl

/-- What any import, successful or not, does to the annotations: it replaces the author's slice on
the piece of the manifest, or nothing. -/
theorem annotationsFor_importBundle (sha256 : Content → String)
    (hopen : opened? env bundle = some (archive, manifest)) (d : Device) :
    (ReplacesSlice sha256 env archive manifest d → ∃ role, ∀ pieceId,
      ((importBundle sha256 env bundle).exec d).2.annotationsFor pieceId =
        if pieceId = manifest.pieceId then
          d.sliceReplaced manifest role (d.notesImported env manifest)
        else d.annotationsFor pieceId) ∧
    (¬ReplacesSlice sha256 env archive manifest d → ∀ pieceId,
      ((importBundle sha256 env bundle).exec d).2.annotationsFor pieceId =
        d.annotationsFor pieceId) := by
  rw [exec_importBundle_of_opened hopen]
  -- after the piece is resolved, on a device with the same annotations and marks
  have hafter : ∀ (piece : Piece) (d₁ : Device),
      (∀ pieceId, d₁.annotationsFor pieceId = d.annotationsFor pieceId) →
      (manifest.StaleOn d₁ ↔ manifest.StaleOn d) → d₁.audioSeq = d.audioSeq →
      ∀ pieceId, ((applyUnlessStale env archive manifest piece).exec d₁).2.annotationsFor pieceId =
        if ¬manifest.StaleOn d ∧ env.fails .audioDirectory = false ∧
            allRestorable env archive 0 manifest.audioEntries = true ∧
            pieceId = manifest.pieceId then
          d.sliceReplaced manifest (roleOf piece manifest.authorId) (d.notesImported env manifest)
        else d.annotationsFor pieceId := by
    intro piece d₁ hannotations hstale hseq pieceId
    by_cases hs : manifest.StaleOn d₁
    · have hexec := exec_applyUnlessStale_of_stale env archive piece hs
      have hd : ((applyUnlessStale env archive manifest piece).exec d₁).2 = d₁ := by
        split_ifs at hexec <;> obtain ⟨_, h⟩ := hexec <;> rw [h]
      rw [hd, hannotations, if_neg fun h => h.1 (hstale.mp hs)]
    · rw [exec_applyUnlessStale_of_newer hs]
      obtain ⟨r, files, seq, hexec, -⟩ := exec_applyManifest env archive manifest piece d₁
      rw [hexec]
      have hnotes : d₁.notesImported env manifest = d.notesImported env manifest := by
        simp only [Device.notesImported, hseq]
      have hslice : d₁.sliceReplaced manifest (roleOf piece manifest.authorId)
          (d.notesImported env manifest) = d.sliceReplaced manifest
            (roleOf piece manifest.authorId) (d.notesImported env manifest) := by
        simp only [Device.sliceReplaced, hannotations]
      rw [annotationsFor_applied, hannotations, hnotes, hslice]
      simp [hstale.not.mp hs]
  rcases resolvePiece_cases sha256 env archive manifest d with
    ⟨piece, hfind, hsum, e, he⟩ | ⟨piece, hfind, hsum, hexec⟩ |
      ⟨hfind, hnone, e, files, he⟩ | ⟨hfind, piece, hpiece, hends⟩
  · rw [exec_bind_of_error he]
    exact ⟨fun h => absurd h.1 (by simp [PieceAvailable, hfind, hsum]), fun _ _ => rfl⟩
  · rw [exec_bind_of_ok hexec]
    have hrun := hafter piece d (fun _ => rfl) .rfl rfl
    refine ⟨fun h => ⟨roleOf piece manifest.authorId, fun pieceId => ?_⟩, fun h pieceId => ?_⟩
    · rw [hrun]
      simp [h.2.1, h.2.2.1, h.2.2.2]
    · rw [hrun, if_neg]
      exact fun hc => h ⟨.inl ⟨piece, hfind, hsum⟩, hc.1, hc.2.1, hc.2.2.1⟩
  · rw [exec_bind_of_error he]
    exact ⟨fun h => absurd h.1 (by simp [PieceAvailable, hfind, hnone]), fun _ _ => rfl⟩
  · rcases hends with ⟨hpersist, e, files, he⟩ | ⟨hpersist, hbad, e, files, he⟩ |
      ⟨hpersist, hremove, hsum, files, hexec⟩
    · rw [exec_bind_of_error he]
      exact ⟨fun h => absurd h.1
        (by simp [PieceAvailable, hfind, hpiece, RegistersCleanly, hpersist]), fun _ _ => rfl⟩
    · rw [exec_bind_of_error he]
      refine ⟨fun h => absurd h.1 ?_, fun _ _ => rfl⟩
      simp only [PieceAvailable, hfind, hpiece, RegistersCleanly]
      grind
    · rw [exec_bind_of_ok hexec]
      have hrun := hafter piece (d.registerPiece piece files) (fun _ => rfl) .rfl rfl
      refine ⟨fun h => ⟨roleOf piece manifest.authorId, fun pieceId => ?_⟩, fun h pieceId => ?_⟩
      · rw [hrun]
        simp [h.2.1, h.2.2.1, h.2.2.2]
      · rw [hrun, if_neg]
        exact fun hc => h ⟨.inr ⟨hfind, piece, hpiece, hpersist, hremove, hsum⟩, hc.1, hc.2.1,
          hc.2.2.1⟩

/-! ## A device holding one piece -/

def sonata : Piece :=
  ⟨"p", "Sonata", "sum", "/documents/pieces/p.pdf", "ann", none, [⟨"bob", none, none⟩], noon, noon⟩

/-- A device that holds the sonata of `ann`, without its file. -/
def sonataDevice : Device := { Device.fresh with pieces := [sonata] }

/-- A bundle file that holds a manifest and nothing else. -/
def ReviewManifest.alone (manifest : ReviewManifest) : Option Archive :=
  some [⟨"manifest.json", .json manifest.toJson⟩]

end Duet
