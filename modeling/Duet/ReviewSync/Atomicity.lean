import Duet.ReviewSync.Import

/-!
# Failed imports

An import writes to the pieces, the audio store, the annotations and the marks, in this order, and
rolls nothing back. `UnchangedAt` says when stopping at a stage leaves the stores as they were.

## Main results

* `get_restoredAssets_iff` — when restoring recordings leaves the audio store as it was.
* `sameStores_applied_iff` — when applying a manifest up to a stage leaves all stores as they were.
* `importBundle_atomic_iff` — when a failed import leaves them as they were.
-/

namespace Duet

open Lib Effect

/-- The stores that an import writes to hold the same before and after. -/
structure SameStores (before after : Device) : Prop where
  pieces : after.pieces = before.pieces
  pieceRecords : after.storage.pieceRecords = before.storage.pieceRecords
  annotations : ∀ pieceId, after.annotationsFor pieceId = before.annotationsFor pieceId
  storedAnnotations : ∀ pieceId,
    after.storage.annotations.get pieceId = before.storage.annotations.get pieceId
  audioAssets : ∀ id, after.audioAssets.get id = before.audioAssets.get id
  lastApplied : ∀ key, after.storage.lastApplied.get key = before.storage.lastApplied.get key

variable {sha256 : Content → String} {env : Env} {archive : Archive} {manifest : ReviewManifest}
  {bundle : Option Archive} {d d' : Device}

/-! ## Restoring recordings -/

/-- Every recording that the loop stores is in the store already, under the id it is given; a
recording whose id is in `deleted` does not count. -/
def RecordingsStored (env : Env) (archive : Archive) (deleted : String → Prop)
    (assets : Assoc String AudioAsset) : Nat → Nat → List ManifestAudioEntry → Prop
  | _, _, [] => True
  | i, seq, entry :: rest =>
    (∀ asset, storedRecording? env archive i entry = some asset →
      ¬deleted (audioId (env.clock (.putAudio i)) seq) →
        assets.get (audioId (env.clock (.putAudio i)) seq) = some asset) ∧
    (restorable env archive i entry = true →
      RecordingsStored env archive deleted assets (i + 1) (seqAfter seq entry) rest)

theorem seqAfter_of_stored {i seq : Nat} {entry : ManifestAudioEntry} {asset : AudioAsset}
    (h : storedRecording? env archive i entry = some asset) : seqAfter seq entry = seq + 1 := by
  rcases hf : entry.audioFile with _ | audioFile
  · simp [storedRecording?, hf] at h
  · simp [seqAfter, hf]

theorem RecordingsStored.congr {deleted : String → Prop} {assets assets' : Assoc String AudioAsset}
    (h : ∀ id, ¬deleted id → assets'.get id = assets.get id) {i seq : Nat}
    {entries : List ManifestAudioEntry} :
    RecordingsStored env archive deleted assets' i seq entries ↔
      RecordingsStored env archive deleted assets i seq entries := by
  induction entries generalizing i seq with
  | nil => rfl
  | cons entry rest ih =>
    simp only [RecordingsStored, ih]
    refine and_congr_left fun _ => forall₃_congr fun asset _ hd => ?_
    rw [h _ hd]

/-- Restoring recordings leaves every id that is not deleted later as it was exactly when they
are in the store already. -/
theorem get_restoredAssets_iff (env : Env) (archive : Archive) (deleted : String → Prop)
    (entries : List ManifestAudioEntry) (i seq : Nat) (assets : Assoc String AudioAsset) :
    (∀ id, ¬deleted id →
      (restoredAssets env archive i seq entries assets).get id = assets.get id) ↔
        RecordingsStored env archive deleted assets i seq entries := by
  induction entries generalizing i seq assets with
  | nil => simp [restoredAssets, RecordingsStored]
  | cons entry rest ih =>
    let id₀ := audioId (env.clock (.putAudio i)) seq
    have hhere : (∀ id, ¬deleted id →
        (assetsAfter env archive i seq entry assets).get id = assets.get id) ↔
          ∀ asset, storedRecording? env archive i entry = some asset → ¬deleted id₀ →
            assets.get id₀ = some asset := by
      constructor
      · intro h asset hasset hd
        have := h id₀ hd
        rw [get_assetsAfter, if_pos rfl, hasset] at this
        exact this.symm
      · intro h id hd
        rw [get_assetsAfter]
        split_ifs with hid
        · rcases hasset : storedRecording? env archive i entry with _ | asset
          · rfl
          · rw [hid] at hd ⊢
            rw [h asset hasset hd]
            rfl
        · rfl
    by_cases hentry : restorable env archive i entry = true
    · rw [restoredAssets, if_pos hentry, RecordingsStored, ← hhere]
      simp only [hentry, true_imp_iff]
      constructor
      · intro h
        -- later recordings have later ids, so this entry's id shows what it stored
        have hfirst : ∀ id, ¬deleted id →
            (assetsAfter env archive i seq entry assets).get id = assets.get id := by
          rw [hhere]
          intro asset hasset hd
          have hlater := get_restoredAssets_of_lt env archive (env.clock (.putAudio i))
            rest (i + 1) (seqAfter seq entry) (assetsAfter env archive i seq entry assets)
            (show seq < seqAfter seq entry by rw [seqAfter_of_stored hasset]; omega)
          rw [h id₀ hd, get_assetsAfter, if_pos rfl, hasset] at hlater
          exact hlater
        refine ⟨hfirst, (RecordingsStored.congr hfirst).mp ((ih _ _ _).mp fun id hd => ?_)⟩
        rw [h id hd, hfirst id hd]
      · rintro ⟨hfirst, hrest⟩ id hd
        rw [(ih _ _ _).mpr ((RecordingsStored.congr hfirst).mpr hrest) id hd, hfirst id hd]
    · rw [restoredAssets, if_neg hentry, RecordingsStored, ← hhere]
      simp [hentry]

/-! ## Applying a manifest -/

/-- The import deletes the asset: it belongs to a live note of the author, and deleting works. -/
def Device.DeletesAsset (d : Device) (env : Env) (manifest : ReviewManifest) (id : String) : Prop :=
  id ∈ d.staleAssetIds manifest ∧ env.fails (.deleteAsset id) = false

/-- Replacing the author's slice by the manifest's changes nothing. -/
def Device.SliceIsStored (d : Device) (env : Env) (manifest : ReviewManifest) (role : PieceRole) :
    Prop :=
  d.sliceReplaced manifest role (d.notesImported env manifest) =
    d.annotationsFor manifest.pieceId

/-- What an import has written when it stops before its last stage was there already. -/
def UnchangedAt (env : Env) (archive : Archive) (manifest : ReviewManifest) (role : PieceRole)
    (d : Device) : Stage → Prop
  | .started => True
  | .restoring => RecordingsStored env archive (fun _ => False) d.audioAssets 0 d.audioSeq
      manifest.audioEntries
  | .replacing => RecordingsStored env archive (fun _ => False) d.audioAssets 0 d.audioSeq
      manifest.audioEntries ∧ d.SliceIsStored env manifest role
  | .marking => RecordingsStored env archive (d.DeletesAsset env manifest) d.audioAssets 0
      d.audioSeq manifest.audioEntries ∧
      (∀ id, d.DeletesAsset env manifest id → d.audioAssets.get id = none) ∧
      d.SliceIsStored env manifest role ∧
      d.storage.annotations.get manifest.pieceId =
        some (d.annotationsFor manifest.pieceId).stored
  | .reporting => False
  | .done => True

/-- A piece's annotations read as before exactly when the slice put in the cache was there. -/
theorem annotationsFor_cacheAnnotations_iff (pieceId : String) (a : PieceAnnotations) :
    (∀ q, (d.cacheAnnotations pieceId a).annotationsFor q = d.annotationsFor q) ↔
      a = d.annotationsFor pieceId := by
  constructor
  · intro h
    simpa using h pieceId
  · rintro rfl q
    rw [Device.annotationsFor_cacheAnnotations_self]

/-- The assets are as before exactly when those the import has stored were there and those it
has deleted were not. -/
theorem get_keptAssets_restoredAssets_iff (env : Env) (archive : Archive)
    (manifest : ReviewManifest) (d : Device) :
    (∀ id, (keptAssets env (d.staleAssetIds manifest) (restoredAssets env archive 0 d.audioSeq
        manifest.audioEntries d.audioAssets)).get id = d.audioAssets.get id) ↔
      RecordingsStored env archive (d.DeletesAsset env manifest) d.audioAssets 0 d.audioSeq
        manifest.audioEntries ∧
      ∀ id, d.DeletesAsset env manifest id → d.audioAssets.get id = none := by
  rw [← get_restoredAssets_iff]
  constructor
  · intro h
    refine ⟨fun id hd => ?_, fun id hd => ?_⟩
    · rw [← h id, get_keptAssets]
      exact (if_neg hd).symm
    · rw [← h id, get_keptAssets]
      exact if_pos hd
  · rintro ⟨hkept, hgone⟩ id
    rw [get_keptAssets]
    split_ifs with hd
    · exact (hgone id hd).symm
    · exact hkept id hd

/-- Applying a manifest that is not stale leaves the stores as they were exactly when it stops at
a stage up to which it has written nothing new. -/
theorem sameStores_applied_iff {role : PieceRole} {seq : Nat} {files : Assoc String Content}
    (hnew : ¬manifest.StaleOn d) (stage : Stage) (hstage : stage ≠ .done) :
    SameStores d (d.applied env archive manifest role seq files stage) ↔
      UnchangedAt env archive manifest role d stage := by
  have hassets := get_restoredAssets_iff env archive (fun _ => False) manifest.audioEntries 0
    d.audioSeq d.audioAssets
  simp only [not_false_eq_true, true_imp_iff] at hassets
  have hcache := annotationsFor_cacheAnnotations_iff (d := d.restored env archive manifest seq files)
    manifest.pieceId (d.sliceReplaced manifest role (d.notesImported env manifest))
  cases stage with
  | started =>
    exact iff_of_true ⟨rfl, rfl, fun _ => rfl, fun _ => rfl, fun _ => rfl, fun _ => rfl⟩ trivial
  | restoring =>
    rw [UnchangedAt, ← hassets]
    exact ⟨fun h => h.audioAssets,
      fun h => ⟨rfl, rfl, fun _ => rfl, fun _ => rfl, h, fun _ => rfl⟩⟩
  | replacing =>
    rw [UnchangedAt, ← hassets]
    exact ⟨fun h => ⟨h.audioAssets, hcache.mp h.annotations⟩,
      fun h => ⟨rfl, rfl, hcache.mpr h.2, fun _ => rfl, h.1, fun _ => rfl⟩⟩
  | marking =>
    have hread : ∀ pieceId, (d.applied env archive manifest role seq files .marking).annotationsFor
        pieceId = ((d.restored env archive manifest seq files).cacheAnnotations manifest.pieceId
          (d.sliceReplaced manifest role (d.notesImported env manifest))).annotationsFor pieceId :=
      fun pieceId => annotationsFor_replaced env manifest _ role _ pieceId
    have hstore : ∀ pieceId, (d.applied env archive manifest role seq files
        .marking).storage.annotations.get pieceId = if pieceId = manifest.pieceId then
          some (d.sliceReplaced manifest role (d.notesImported env manifest)).stored
        else d.storage.annotations.get pieceId := fun pieceId => Assoc.get_set _ _ _ _
    rw [UnchangedAt, ← and_assoc, ← get_keptAssets_restoredAssets_iff]
    constructor
    · intro h
      have hslice : d.SliceIsStored env manifest role :=
        hcache.mp fun pieceId => (hread pieceId).symm.trans (h.annotations pieceId)
      have hstored := h.storedAnnotations manifest.pieceId
      rw [hstore, if_pos rfl, hslice] at hstored
      exact ⟨h.audioAssets, hslice, hstored.symm⟩
    · rintro ⟨haudio, hslice, hstored⟩
      refine ⟨rfl, rfl, fun pieceId => (hread pieceId).trans (hcache.mpr hslice pieceId),
        fun pieceId => ?_, haudio, fun _ => rfl⟩
      rw [hstore, hslice]
      split_ifs with hp
      · rw [hp, hstored]
      · rfl
  | reporting =>
    refine iff_of_false (fun h => ?_) id
    have hmark := h.lastApplied (lastAppliedKey manifest.pieceId manifest.authorId)
    have hset : (d.applied env archive manifest role seq files .reporting).storage.lastApplied.get
        (lastAppliedKey manifest.pieceId manifest.authorId) = some manifest.exportedAtMillis :=
      Assoc.get_set_self _ _ _
    -- a mark that stays where it was would make the bundle stale
    refine hnew ?_
    rw [ReviewManifest.StaleOn, Device.lastAppliedAt, ← hmark, hset]
    exact Int.le_refl _
  | done => exact absurd rfl hstage

/-! ## Whole imports -/

/-- The device accepts the bundle: its import succeeds. -/
def Accepts (sha256 : Content → String) (env : Env) (bundle : Option Archive) (d : Device) : Prop :=
  ∃ summary d', (importBundle sha256 env bundle).exec d = (.ok summary, d')

/-- An import that fails leaves the stores as they were, and every bundle is accepted afterwards
exactly when it would have been before. -/
def ImportAtomic (sha256 : Content → String) (env : Env) (bundle : Option Archive) (d : Device) :
    Prop :=
  ∀ e d', (importBundle sha256 env bundle).exec d = (.error e, d') →
    SameStores d d' ∧
      ∀ env' bundle', Accepts sha256 env' bundle' d' ↔ Accepts sha256 env' bundle' d

/-- Whatever has been written when the import stops, if it stops early, was there already: a piece
held is left to an import that stops where nothing has changed, and a piece that gets registered is
followed by an import that runs to its end. -/
def CleanOn (sha256 : Content → String) (env : Env) (bundle : Option Archive) (d : Device) : Prop :=
  ∀ archive manifest, opened? env bundle = some (archive, manifest) →
    (∀ piece, d.findPiece manifest.pieceId = some piece →
      piece.basePdfChecksum = manifest.basePdfChecksum → ¬manifest.StaleOn d →
        UnchangedAt env archive manifest (roleOf piece manifest.authorId) d
          (stageReached env archive manifest)) ∧
    (d.findPiece manifest.pieceId = none → ∀ piece,
      registeredPiece? sha256 env manifest archive = some piece →
        RegistersCleanly env manifest piece ∧ RunsToEnd env archive manifest d)

/-- A bundle is accepted exactly when it can be opened, its piece is available and its import runs
to its end. -/
theorem accepts_iff :
    Accepts sha256 env bundle d ↔ ∃ archive manifest,
      opened? env bundle = some (archive, manifest) ∧
        PieceAvailable sha256 env archive manifest d ∧ RunsToEnd env archive manifest d := by
  rcases hopen : opened? env bundle with _ | ⟨archive, manifest⟩
  · obtain ⟨e, he⟩ := exec_importBundle_of_not_opened sha256 hopen d
    simp [Accepts, he]
  simp only [Option.some.injEq, Prod.mk.injEq]
  have hgoal : Accepts sha256 env bundle d ↔ PieceAvailable sha256 env archive manifest d ∧
      RunsToEnd env archive manifest d := by
    rw [Accepts, exec_importBundle_of_opened hopen]
    rcases resolvePiece_cases sha256 env archive manifest d with
      ⟨piece, hfind, hsum, e, he⟩ | ⟨piece, hfind, hsum, hexec⟩ |
        ⟨hfind, hnone, e, files, he⟩ | ⟨hfind, piece, hpiece, hends⟩
    · rw [exec_bind_of_error he]
      simp [PieceAvailable, hfind, hsum]
    · rw [exec_bind_of_ok hexec, applyUnlessStale_ok_iff]
      simp [PieceAvailable, hfind, hsum]
    · rw [exec_bind_of_error he]
      simp [PieceAvailable, hfind, hnone]
    · have havailable : PieceAvailable sha256 env archive manifest d ↔
          RegistersCleanly env manifest piece := by
        simp [PieceAvailable, hfind, hpiece]
      rw [havailable]
      rcases hends with ⟨hpersist, e, files, he⟩ | ⟨hpersist, hbad, e, files, he⟩ |
        ⟨hpersist, hremove, hsum, files, hexec⟩
      · rw [exec_bind_of_error he]
        simp [RegistersCleanly, hpersist]
      · rw [exec_bind_of_error he]
        simp only [RegistersCleanly]
        grind
      · rw [exec_bind_of_ok hexec, applyUnlessStale_ok_iff]
        simp only [RegistersCleanly, hpersist, hremove, hsum, true_and]
        rfl
  rw [hgoal]
  constructor
  · exact fun h => ⟨archive, manifest, ⟨rfl, rfl⟩, h⟩
  · rintro ⟨_, _, ⟨rfl, rfl⟩, h⟩
    exact h

theorem SameStores.accepts_iff (h : SameStores d d') :
    Accepts sha256 env bundle d' ↔ Accepts sha256 env bundle d := by
  have hfind : ∀ pieceId, d'.findPiece pieceId = d.findPiece pieceId := by
    intro pieceId
    rw [Device.findPiece, h.pieces]
    rfl
  have hmark : ∀ manifest : ReviewManifest, manifest.StaleOn d' ↔ manifest.StaleOn d := by
    intro manifest
    rw [ReviewManifest.StaleOn, Device.lastAppliedAt, h.lastApplied]
    rfl
  simp only [Duet.accepts_iff, PieceAvailable, RunsToEnd, hfind, hmark]

/-- A piece that has been registered is not there before. -/
theorem not_sameStores_of_pieces {piece : Piece} (h : d'.pieces = d.pieces ++ [piece]) :
    ¬SameStores d d' := by
  intro hsame
  have hlength := congrArg List.length (h.symm.trans hsame.pieces)
  simp at hlength

/-- The device with other files holds the same stores. -/
theorem sameStores_files (d : Device) (files : Assoc String Content) :
    SameStores d { d with files := files } :=
  ⟨rfl, rfl, fun _ => rfl, fun _ => rfl, fun _ => rfl, fun _ => rfl⟩

/-- With the piece held, a failure leaves the stores alone exactly when the import stops at a stage
up to which it has written nothing new. -/
theorem applyUnlessStale_atomic_iff (piece : Piece) :
    (∀ e d', (applyUnlessStale env archive manifest piece).exec d = (.error e, d') →
      SameStores d d') ↔
      (¬manifest.StaleOn d → UnchangedAt env archive manifest (roleOf piece manifest.authorId) d
        (stageReached env archive manifest)) := by
  by_cases hstale : manifest.StaleOn d
  · refine iff_of_true (fun e d' h => ?_) (fun hnew => absurd hstale hnew)
    have hexec := exec_applyUnlessStale_of_stale env archive piece hstale
    have hd : d' = d := by
      split_ifs at hexec <;> obtain ⟨_, hs⟩ := hexec <;>
        exact congrArg Prod.snd (h.symm.trans hs)
    exact hd ▸ sameStores_files d d.files
  · rw [exec_applyUnlessStale_of_newer hstale]
    simp only [hstale, not_false_eq_true, true_imp_iff]
    obtain ⟨r, files, seq, hexec, hr⟩ := exec_applyManifest env archive manifest piece d
    rw [hexec]
    split_ifs at hr with hstage
    · obtain ⟨⟨summary, rfl⟩, -⟩ := hr
      simp [hstage, UnchangedAt]
    · obtain ⟨e, rfl⟩ := hr
      rw [← sameStores_applied_iff hstale _ hstage]
      exact ⟨fun h => h e _ rfl, fun h e' d' he => (Prod.mk.inj he).2 ▸ h⟩

/-- With the piece registered on the way, a failure leaves the stores alone only when there is
none. -/
theorem registration_atomic_iff {piece : Piece}
    (hends : RegistrationEnds env manifest d piece
      ((resolvePiece sha256 env manifest archive).exec d)) :
    (∀ e d', (resolvePiece sha256 env manifest archive >>= fun piece =>
        applyUnlessStale env archive manifest piece).exec d = (.error e, d') →
      SameStores d d') ↔
      RegistersCleanly env manifest piece ∧ RunsToEnd env archive manifest d := by
  rcases hends with ⟨hpersist, e, files, he⟩ | ⟨hpersist, hbad, e, files, he⟩ |
    ⟨hpersist, hremove, hsum, files, hexec⟩
  · refine iff_of_false (fun h => ?_) (by simp [RegistersCleanly, hpersist])
    exact not_sameStores_of_pieces rfl (h e _ (exec_bind_of_error he _))
  · refine iff_of_false (fun h => ?_) (by simp only [RegistersCleanly]; grind)
    exact not_sameStores_of_pieces rfl (h e _ (exec_bind_of_error he _))
  · rw [exec_bind_of_ok hexec]
    simp only [RegistersCleanly, hpersist, hremove, hsum, true_and]
    have hpieces := pieces_applyUnlessStale env archive manifest piece
      (d.registerPiece piece files)
    change _ ↔ RunsToEnd env archive manifest (d.registerPiece piece files)
    rw [← applyUnlessStale_ok_iff env archive manifest piece]
    rcases hrun : (applyUnlessStale env archive manifest piece).exec (d.registerPiece piece files)
      with ⟨e | summary, d'⟩
    · rw [hrun] at hpieces
      refine iff_of_false (fun h => not_sameStores_of_pieces hpieces (h e d' rfl)) (by simp)
    · simp

/-- A failed import leaves the pieces, the annotations, the audio assets and the marks as they
were exactly when whatever it has written was there already. -/
theorem importBundle_atomic_iff (sha256 : Content → String) (env : Env)
    (bundle : Option Archive) (d : Device) :
    ImportAtomic sha256 env bundle d ↔ CleanOn sha256 env bundle d := by
  have hsame : ImportAtomic sha256 env bundle d ↔ ∀ e d',
      (importBundle sha256 env bundle).exec d = (.error e, d') → SameStores d d' :=
    ⟨fun h e d' he => (h e d' he).1,
      fun h e d' he => ⟨h e d' he, fun _ _ => (h e d' he).accepts_iff⟩⟩
  rw [hsame]
  rcases hopen : opened? env bundle with _ | ⟨archive, manifest⟩
  · obtain ⟨e, he⟩ := exec_importBundle_of_not_opened sha256 hopen d
    refine iff_of_true (fun e' d' h => ?_) (fun archive manifest h => by simp [hopen] at h)
    obtain ⟨-, rfl⟩ := Prod.mk.inj (he.symm.trans h)
    exact sameStores_files d d.files
  have hclean : CleanOn sha256 env bundle d ↔
      (∀ piece, d.findPiece manifest.pieceId = some piece →
        piece.basePdfChecksum = manifest.basePdfChecksum → ¬manifest.StaleOn d →
          UnchangedAt env archive manifest (roleOf piece manifest.authorId) d
            (stageReached env archive manifest)) ∧
      (d.findPiece manifest.pieceId = none → ∀ piece,
        registeredPiece? sha256 env manifest archive = some piece →
          RegistersCleanly env manifest piece ∧ RunsToEnd env archive manifest d) := by
    simp [CleanOn, hopen]
  rw [hclean, exec_importBundle_of_opened hopen]
  rcases resolvePiece_cases sha256 env archive manifest d with
    ⟨piece, hfind, hsum, e, he⟩ | ⟨piece, hfind, hsum, hexec⟩ |
      ⟨hfind, hnone, e, files, he⟩ | ⟨hfind, piece, hpiece, hends⟩
  · refine iff_of_true (fun e' d' h => ?_) (by simp [hfind, hsum])
    obtain ⟨-, rfl⟩ := Prod.mk.inj ((exec_bind_of_error he _).symm.trans h)
    exact sameStores_files d d.files
  · rw [exec_bind_of_ok hexec, applyUnlessStale_atomic_iff]
    simp [hfind, hsum]
  · refine iff_of_true (fun e' d' h => ?_) (by simp [hfind, hnone])
    obtain ⟨-, rfl⟩ := Prod.mk.inj ((exec_bind_of_error he _).symm.trans h)
    exact sameStores_files d files
  · rw [registration_atomic_iff hends]
    simp [hfind, hpiece]

/-- The sum that every file but `[1]` has. -/
def toySum : Content → String
  | .bytes [1] => "sum"
  | _ => "other"

/-- A first share of the sonata whose PDF was damaged on the way. -/
def damagedShare : Option Archive :=
  some [⟨"pdf/p.pdf", .bytes [0]⟩, ⟨"manifest.json", .json (ReviewManifest.toJson
    ⟨1, "p", "Sonata", "ann", none, 1, "sum", some "p.pdf", [], []⟩)⟩]

/-- The same share, undamaged. -/
def soundShare : Option Archive :=
  some [⟨"pdf/p.pdf", .bytes [1]⟩, ⟨"manifest.json", .json (ReviewManifest.toJson
    ⟨1, "p", "Sonata", "ann", none, 1, "sum", some "p.pdf", [], []⟩)⟩]

/-- The damaged share is refused, but its piece stays, and the sound one is refused from then
on. -/
theorem damagedShare_not_atomic :
    ¬ImportAtomic toySum (Env.quiet "bob" noon) damagedShare Device.fresh := by
  intro h
  let outcome := (importBundle toySum (Env.quiet "bob" noon) damagedShare).exec Device.fresh
  rcases hr : outcome.1 with e | summary
  · have hpieces := (h e outcome.2 (Prod.ext hr rfl)).1.pieces
    exact absurd hpieces (by decide)
  · have hfails : outcome.1.isOk = false := by decide
    simp [hr, Except.isOk, Except.toBool] at hfails

example : ((importBundle toySum (Env.quiet "bob" noon) soundShare).exec
    ((importBundle toySum (Env.quiet "bob" noon) damagedShare).exec Device.fresh).2).1.isOk =
      false := by decide

end Duet
