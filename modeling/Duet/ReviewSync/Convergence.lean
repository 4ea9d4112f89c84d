import Duet.Lib.Revisioned
import Duet.Lib.Transition
import Duet.ReviewSync.Export
import Duet.ReviewSync.Import

/-!
# Convergence of shared slices

An author exports a piece again and again; another device imports the bundles in any order, some
of them repeatedly and some of them never. What the device holds of the author's slice is a
register (`Revisioned`): its revision is the mark of the last bundle applied, and importing a
bundle offers the slice it carries.

## Main results

* `Share.slice_eq` — a bundle carries the slice as the exporting device holds it.
* `Share.receive` — one import offers the slice of the bundle to the register.
* `receive_offers` — the run lemma: a run offers the slices it delivers, one after another.
* `Device.converges` — the device ends up with the slice of the newest bundle delivered.
* `imports_commute` — bundles of two authors may be imported in either order.
-/

namespace Duet

open Lib Effect

/-! ## What a bundle carries -/

/-- The slice of one author: the strokes of each layer, and the notes up to their asset ids. -/
structure Slice where
  layers : List (List InkStroke)
  notes : List AudioNote
  deriving DecidableEq, Repr

/-- The slice of `author` on a piece. -/
def PieceAnnotations.sliceOf (a : PieceAnnotations) (author : String) : Slice :=
  ⟨(a.layersOf author).map (·.strokes), (a.notesBy author).map (·.modAsset)⟩

/-- The slice a manifest carries. -/
def ReviewManifest.slice (manifest : ReviewManifest) : Slice :=
  ⟨[manifest.strokes], manifest.audioEntries.map (·.note.modAsset)⟩

/-- A manifest of `author` that carries only their notes, the live ones with their recordings. -/
structure ReviewManifest.WellAuthored (manifest : ReviewManifest) (author pieceId : String) :
    Prop where
  pieceId : manifest.pieceId = pieceId
  authorId : manifest.authorId = author
  noteAuthors : ∀ entry ∈ manifest.audioEntries, entry.note.authorId = author
  recorded : ∀ entry ∈ manifest.audioEntries, entry.audioFile.isSome = !entry.note.isTombstoned

/-- A bundle that `author` has exported for the piece. -/
structure Share (author pieceId : String) where
  env : Env
  device : Device
  authorId : Option String
  exported : ExportedBundle
  after : Device
  succeeds : (exportBundle env pieceId authorId).exec device = (.ok exported, after)
  isAuthor : authorId.getD env.currentUserId = author

namespace Share

variable {author pieceId : String} (share : Share author pieceId)

def archive : Archive := share.exported.archive

theorem hasManifest : share.archive.manifest?.isSome = true := by
  obtain ⟨piece, -, -, hpacked, -⟩ := exportBundle_ok share.succeeds
  rw [archive, hpacked]
  rfl

/-- The manifest as it is read from the bundle. -/
def manifest : ReviewManifest := share.archive.manifest?.get share.hasManifest

/-- The time of the export, in milliseconds. -/
def exportedAt : Int := share.manifest.exportedAtMillis

def slice : Slice := share.manifest.slice

/-- The slice as a revision of the author's. -/
def revision : Revisioned Int Slice := ⟨share.exportedAt, share.slice⟩

theorem manifest?_archive : share.archive.manifest? = some share.manifest :=
  (Option.some_get share.hasManifest).symm

theorem wellAuthored : share.manifest.WellAuthored author pieceId := by
  obtain ⟨piece, -, -, hpacked, hrecorded⟩ := exportBundle_ok share.succeeds
  have hmanifest := share.manifest?_archive.symm.trans hpacked
  rw [share.isAuthor] at hmanifest hrecorded
  rw [Option.some.inj hmanifest]
  refine ⟨rfl, rfl, ?_, ?_⟩
  · intro entry hentry
    simp only [ReviewManifest.transported, Device.manifestFor, List.map_map, List.mem_map,
      Function.comp_apply, PieceAnnotations.notesBy, List.mem_filter, beq_iff_eq] at hentry
    obtain ⟨note, ⟨-, hauthor⟩, rfl⟩ := hentry
    exact hauthor
  · intro entry hentry
    obtain ⟨packed, hpackedEntry, rfl⟩ := List.mem_map.mp hentry
    simpa [ManifestAudioEntry.transported] using hrecorded packed hpackedEntry

/-- The bundle carries the author's slice as the exporting device holds it, with times in
milliseconds. -/
theorem slice_eq : ∃ piece, share.device.findPiece pieceId = some piece ∧
    share.slice = ⟨[(exportedLayer (share.device.annotationsFor pieceId) piece author).strokes],
      ((share.device.annotationsFor pieceId).notesBy author).map (·.transported)⟩ := by
  obtain ⟨piece, hfind, -, hpacked, -⟩ := exportBundle_ok share.succeeds
  have hmanifest := share.manifest?_archive.symm.trans hpacked
  rw [share.isAuthor] at hmanifest
  refine ⟨piece, hfind, ?_⟩
  rw [slice, Option.some.inj hmanifest]
  simp only [ReviewManifest.slice, ReviewManifest.transported, Device.manifestFor, List.map_map]
  rfl

end Share

/-! ## The notes of an import -/

variable {sha256 : Content → String} {env : Env} {archive : Archive} {manifest : ReviewManifest}
  {d d' : Device}

theorem modAsset_importedNote (i seq : Nat) (entry : ManifestAudioEntry) :
    (importedNote env i seq entry).modAsset = entry.note.modAsset := by
  unfold importedNote
  split_ifs <;> rfl

theorem map_modAsset_importedNotes (i seq : Nat) (entries : List ManifestAudioEntry) :
    (importedNotes env i seq entries).map (·.modAsset) = entries.map (·.note.modAsset) := by
  induction entries generalizing i seq with
  | nil => rfl
  | cons entry rest ih => simp [importedNotes, modAsset_importedNote, ih]

theorem authorId_importedNotes {author : String} (i seq : Nat) (entries : List ManifestAudioEntry)
    (h : ∀ entry ∈ entries, entry.note.authorId = author) :
    ∀ n ∈ importedNotes env i seq entries, n.authorId = author := by
  intro n hn
  have hmem : n.modAsset ∈ entries.map (·.note.modAsset) := by
    rw [← map_modAsset_importedNotes i seq entries]
    exact List.mem_map_of_mem hn
  obtain ⟨entry, hentry, heq⟩ := List.mem_map.mp hmem
  exact (congrArg AudioNote.authorId heq).symm.trans (h entry hentry)

theorem le_foldl_seqAfter (seq : Nat) (entries : List ManifestAudioEntry) :
    seq ≤ entries.foldl seqAfter seq := by
  induction entries generalizing seq with
  | nil => exact le_rfl
  | cons entry rest ih => exact (le_seqAfter seq entry).trans (ih _)

/-- A live note is imported under an id generated for it, with its recording stored. -/
theorem importedNotes_stored {i seq : Nat} {entries : List ManifestAudioEntry}
    {assets : Assoc String AudioAsset} (hall : allRestorable env archive i entries = true)
    (hrecorded : ∀ entry ∈ entries, entry.audioFile.isSome = !entry.note.isTombstoned)
    {n : AudioNote} (hn : n ∈ importedNotes env i seq entries) (hlive : n.isTombstoned = false) :
    ∃ t m, seq ≤ m ∧ m < entries.foldl seqAfter seq ∧ n.audioAssetId = audioId t m ∧
      ∃ asset, (restoredAssets env archive i seq entries assets).get n.audioAssetId =
        some asset := by
  induction entries generalizing i seq assets with
  | nil => simp [importedNotes] at hn
  | cons entry rest ih =>
    obtain ⟨hentry, hrest⟩ := Bool.and_eq_true_iff.mp hall
    rw [restoredAssets, if_pos hentry, List.foldl_cons]
    have hseq := le_seqAfter seq entry
    rcases List.mem_cons.mp hn with rfl | hn
    · have hfile : entry.audioFile.isSome = true := by
        have hflag := hrecorded entry (by simp)
        unfold importedNote at hlive
        split_ifs at hlive <;> simp_all
      have hasset : (importedNote env i seq entry).audioAssetId =
          audioId (env.clock (.putAudio i)) seq := by simp [importedNote, hfile]
      have hlt : seq < seqAfter seq entry := by simp [seqAfter, hfile]
      refine ⟨_, seq, le_rfl, hlt.trans_le (le_foldl_seqAfter _ _), hasset, ?_⟩
      rw [hasset, get_restoredAssets_of_lt _ _ _ _ _ _ _ hlt, get_assetsAfter, if_pos rfl]
      simp only [restorable, Bool.or_eq_true, Option.isNone_iff_eq_none,
        Bool.and_eq_true] at hentry
      rcases hentry with hnone | ⟨hstored, -⟩
      · simp [hnone] at hfile
      · obtain ⟨asset, hasset⟩ := Option.isSome_iff_exists.mp hstored
        exact ⟨asset, by simp [hasset]⟩
    · obtain ⟨t, m, hle, hlt, hid, hget⟩ := ih hrest
        (fun e he => hrecorded e (List.mem_cons_of_mem _ he)) hn
      exact ⟨t, m, hseq.trans hle, hlt, hid, hget⟩

/-! ## One import -/

namespace Device

variable (d : Device) (author pieceId : String)

/-- The author's slice as a register: the mark and the slice. -/
def register : Revisioned Int Slice :=
  ⟨d.lastAppliedAt pieceId author, (d.annotationsFor pieceId).sliceOf author⟩

/-- The author's live notes, under ids generated before, have their recordings stored. -/
structure Plays : Prop where
  stored : ∀ n ∈ (d.annotationsFor pieceId).notesBy author, n.isTombstoned = false →
    ∃ asset, d.audioAssets.get n.audioAssetId = some asset
  generated : ∀ n ∈ (d.annotationsFor pieceId).notesBy author, n.isTombstoned = false →
    ∃ t m, m < d.audioSeq ∧ n.audioAssetId = audioId t m

end Device

theorem allRestorable_of_done (h : stageReached env archive manifest = .done) :
    allRestorable env archive 0 manifest.audioEntries = true := by
  unfold stageReached at h
  split_ifs at h
  simp_all

theorem mem_staleAssetIds {author pieceId id : String} (hmanifest : manifest.WellAuthored author
    pieceId) : id ∈ d.staleAssetIds manifest ↔ ∃ n ∈ (d.annotationsFor pieceId).notesBy author,
      n.isTombstoned = false ∧ n.audioAssetId = id := by
  simp only [Device.staleAssetIds, List.mem_eraseDups, List.mem_map, PieceAnnotations.notesBy,
    PieceAnnotations.withoutTombstones, List.mem_filter, hmanifest.pieceId, hmanifest.authorId]
  grind

namespace Share

variable {author pieceId : String} (share : Share author pieceId)

theorem opened {opening : Archive × ReviewManifest}
    (h : opened? env (some share.archive) = some opening) :
    opening = (share.archive, share.manifest) := by
  obtain ⟨-, harchive, hmanifest⟩ := opened?_eq_some.mp h
  obtain ⟨archive, manifest⟩ := opening
  obtain rfl := Option.some.inj harchive
  rw [share.manifest?_archive] at hmanifest
  exact congrArg _ (Option.some.inj hmanifest).symm

/-- On a device that holds the piece, a successful import of the bundle is dropped as stale, or
replaces the author's slice. -/
theorem receive_cases {summary : ReviewBundleSummary}
    (hheld : (d.findPiece pieceId).isSome = true)
    (h : (importBundle sha256 env (some share.archive)).exec d = (.ok summary, d')) :
    (share.exportedAt ≤ d.lastAppliedAt pieceId author ∧ d' = d) ∨
    (d.lastAppliedAt pieceId author < share.exportedAt ∧
      allRestorable env share.archive 0 share.manifest.audioEntries = true ∧
      ∃ piece files, d.findPiece pieceId = some piece ∧
        d' = d.imported env share.archive share.manifest piece files) := by
  obtain ⟨archive, manifest, piece, d₁, hopen, hresolve, hcase⟩ := importBundle_ok h
  obtain ⟨rfl, rfl⟩ := Prod.mk.inj (share.opened hopen)
  rcases hresolve with ⟨hfind, -, rfl⟩ | ⟨hnone, -⟩
  · rw [share.wellAuthored.pieceId] at hfind
    rcases hcase with ⟨hstale, rfl⟩ | ⟨hnewer, hdone, files, rfl⟩
    · simp only [ReviewManifest.StaleOn, share.wellAuthored.pieceId, share.wellAuthored.authorId]
        at hstale
      exact .inl ⟨hstale, rfl⟩
    · simp only [ReviewManifest.StaleOn, share.wellAuthored.pieceId, share.wellAuthored.authorId,
        not_le] at hnewer
      exact .inr ⟨hnewer, allRestorable_of_done hdone, piece, files, hfind, rfl⟩
  · rw [share.wellAuthored.pieceId] at hnone
    simp [hnone] at hheld

/-! ### The device after an import that replaces the slice -/

section

variable (env : Env) (piece : Piece) (files : Assoc String Content)

theorem annotationsFor_imported (q : String) :
    (d.imported env share.archive share.manifest piece files).annotationsFor q =
      if q = pieceId then { d.annotationsFor pieceId with pieceId := pieceId }.replaceSlice
        ⟨author, roleOf piece author, share.manifest.strokes, none⟩
        (d.notesImported env share.manifest)
      else d.annotationsFor q := by
  rw [Duet.annotationsFor_imported, Device.sliceReplaced, share.wellAuthored.pieceId,
    share.wellAuthored.authorId]

theorem authorId_notesImported :
    ∀ n ∈ d.notesImported env share.manifest, n.authorId = author :=
  authorId_importedNotes 0 d.audioSeq _ share.wellAuthored.noteAuthors

theorem notesBy_imported :
    ((d.imported env share.archive share.manifest piece files).annotationsFor pieceId).notesBy
      author = d.notesImported env share.manifest := by
  rw [share.annotationsFor_imported, if_pos rfl]
  exact PieceAnnotations.notesBy_replaceSlice_self (share.authorId_notesImported env)

theorem register_imported :
    (d.imported env share.archive share.manifest piece files).register author pieceId =
      share.revision := by
  have hmark : (d.imported env share.archive share.manifest piece files).lastAppliedAt pieceId
      author = share.exportedAt := by
    rw [Device.lastAppliedAt, lastApplied_imported, if_pos
      (by rw [share.wellAuthored.pieceId, share.wellAuthored.authorId])]
    rfl
  have hlayers : ((d.imported env share.archive share.manifest piece files).annotationsFor
      pieceId).layersOf author = [⟨author, roleOf piece author, share.manifest.strokes, none⟩] := by
    rw [share.annotationsFor_imported, if_pos rfl]
    exact PieceAnnotations.layersOf_replaceSlice_self
  rw [Device.register, hmark, PieceAnnotations.sliceOf, hlayers, share.notesBy_imported,
    Device.notesImported, map_modAsset_importedNotes]
  rfl

theorem sameOthers_imported :
    d.SameOthers author (d.imported env share.archive share.manifest piece files) := by
  intro a hne q
  rw [share.annotationsFor_imported]
  split_ifs with hq
  · subst hq
    exact ⟨PieceAnnotations.layersOf_replaceSlice_of_ne hne,
      PieceAnnotations.notesBy_replaceSlice_of_ne hne (share.authorId_notesImported env)⟩
  · exact ⟨rfl, rfl⟩

/-- The recordings of the previous slice are deleted, those of the new one kept: the ids of the
new one were generated later. -/
theorem plays_imported (hplays : d.Plays author pieceId)
    (hall : allRestorable env share.archive 0 share.manifest.audioEntries = true) :
    (d.imported env share.archive share.manifest piece files).Plays author pieceId := by
  have hstored : ∀ n ∈ d.notesImported env share.manifest, n.isTombstoned = false →
      ∃ t m, d.audioSeq ≤ m ∧ m < share.manifest.audioEntries.foldl seqAfter d.audioSeq ∧
        n.audioAssetId = audioId t m ∧ ∃ asset, (restoredAssets env share.archive 0 d.audioSeq
          share.manifest.audioEntries d.audioAssets).get n.audioAssetId = some asset :=
    fun n hn hlive => importedNotes_stored hall share.wellAuthored.recorded hn hlive
  constructor
  · intro n hn hlive
    rw [share.notesBy_imported] at hn
    obtain ⟨t, m, hle, -, hid, asset, hget⟩ := hstored n hn hlive
    refine ⟨asset, ?_⟩
    rw [audioAssets_imported, get_keptAssets, if_neg, hget]
    rintro ⟨hstale, -⟩
    obtain ⟨old, hold, holdLive, hsame⟩ := (mem_staleAssetIds share.wellAuthored).mp hstale
    obtain ⟨t', m', hlt, hid'⟩ := hplays.generated old hold holdLive
    have heq := audioId_injective_seq (hid'.symm.trans (hsame.trans hid))
    omega
  · intro n hn hlive
    rw [share.notesBy_imported] at hn
    obtain ⟨t, m, -, hlt, hid, -⟩ := hstored n hn hlive
    exact ⟨t, m, hlt, hid⟩

end

/-- One import offers the slice of the bundle to the register of its author; it drops a bundle that
is not newer, and leaves everybody else alone. -/
theorem receive {summary : ReviewBundleSummary} (hheld : (d.findPiece pieceId).isSome = true)
    (h : (importBundle sha256 env (some share.archive)).exec d = (.ok summary, d')) :
    d'.register author pieceId = (d.register author pieceId).offer share.revision ∧
      (share.exportedAt ≤ d.lastAppliedAt pieceId author → d' = d) ∧ d.SameOthers author d' ∧
      d'.pieces = d.pieces ∧ (d.Plays author pieceId → d'.Plays author pieceId) := by
  rcases share.receive_cases hheld h with ⟨hstale, rfl⟩ | ⟨hnewer, hall, piece, files, -, rfl⟩
  · have hoffer : (d'.register author pieceId).offer share.revision = d'.register author pieceId :=
      Revisioned.offer_eq_of_le hstale
    exact ⟨hoffer.symm, fun _ => rfl, fun _ _ _ => ⟨rfl, rfl⟩, rfl, id⟩
  · have hoffer : (d.register author pieceId).offer share.revision = share.revision :=
      Revisioned.offer_eq_of_lt hnewer
    refine ⟨by rw [share.register_imported, hoffer], fun hle => absurd hnewer (not_lt.mpr hle),
      share.sameOthers_imported env piece files, rfl, fun hplays => ?_⟩
    exact share.plays_imported env piece files hplays hall

end Share

/-! ## Runs -/

/-- What the receiving device does: import a bundle of the author's, or something else. -/
inductive ReceiverEvent (author pieceId : String) where
  | deliver (env : Env) (share : Share author pieceId)
  | other (operation : Device → Device)

/-- An operation that leaves the author's slice alone, its recordings and its mark included. The
counter of the audio store is not reset. -/
structure Device.LeavesSlice (d : Device) (author pieceId : String) (d' : Device) : Prop where
  held : (d.findPiece pieceId).isSome = true → (d'.findPiece pieceId).isSome = true
  layers : (d'.annotationsFor pieceId).layersOf author = (d.annotationsFor pieceId).layersOf author
  notes : (d'.annotationsFor pieceId).notesBy author = (d.annotationsFor pieceId).notesBy author
  mark : d'.lastAppliedAt pieceId author = d.lastAppliedAt pieceId author
  recordings : ∀ n ∈ (d.annotationsFor pieceId).notesBy author,
    d'.audioAssets.get n.audioAssetId = d.audioAssets.get n.audioAssetId
  counter : d.audioSeq ≤ d'.audioSeq

namespace ReceiverEvent

variable {author pieceId : String}

/-- One event on the receiving device; an import that fails is not part of a run. -/
def step (sha256 : Content → String) (d : Device) :
    ReceiverEvent author pieceId → Option Device
  | deliver env share =>
    match (importBundle sha256 env (some share.archive)).exec d with
    | (.ok _, d') => some d'
    | (.error _, _) => none
  | other operation => some (operation d)

/-- Other operations leave the author's slice alone. -/
def OthersLeave (d : Device) : ReceiverEvent author pieceId → Prop
  | deliver _ _ => True
  | other operation => d.LeavesSlice author pieceId (operation d)

/-- The bundles that the events deliver. -/
def delivered : List (ReceiverEvent author pieceId) → List (Share author pieceId)
  | [] => []
  | deliver _ share :: events => share :: delivered events
  | other _ :: events => delivered events

theorem step_deliver {env : Env} {share : Share author pieceId}
    (h : step sha256 d (.deliver env share) = some d') :
    ∃ summary, (importBundle sha256 env (some share.archive)).exec d = (.ok summary, d') := by
  rcases hexec : (importBundle sha256 env (some share.archive)).exec d with ⟨e | summary, t⟩
  · simp [step, hexec] at h
  · simp only [step, hexec, Option.some.injEq] at h
    exact ⟨summary, by rw [h]⟩

end ReceiverEvent

theorem Device.LeavesSlice.register {author pieceId : String} (h : d.LeavesSlice author pieceId d') :
    d'.register author pieceId = d.register author pieceId := by
  rw [Device.register, PieceAnnotations.sliceOf, h.layers, h.notes, h.mark]
  rfl

theorem Device.LeavesSlice.plays {author pieceId : String} (h : d.LeavesSlice author pieceId d')
    (hplays : d.Plays author pieceId) : d'.Plays author pieceId := by
  constructor
  · intro n hn hlive
    rw [h.notes] at hn
    rw [h.recordings n hn]
    exact hplays.stored n hn hlive
  · intro n hn hlive
    rw [h.notes] at hn
    obtain ⟨t, m, hlt, hid⟩ := hplays.generated n hn hlive
    exact ⟨t, m, hlt.trans_le h.counter, hid⟩

/-! ### Operations that leave a slice alone -/

/-- An operation that leaves everybody but `user` alone, and the pieces, the marks and the audio
store as they are, leaves every other author's slice alone. -/
theorem Device.SameOthers.leavesSlice {author pieceId user : String} (hne : author ≠ user)
    (h : d.SameOthers user d') (hpieces : d'.pieces = d.pieces)
    (hmarks : d'.storage.lastApplied = d.storage.lastApplied)
    (haudio : d'.audioAssets = d.audioAssets) (hseq : d'.audioSeq = d.audioSeq) :
    d.LeavesSlice author pieceId d' where
  held := by
    intro hheld
    rwa [Device.findPiece, hpieces]
  layers := (h author hne pieceId).1
  notes := (h author hne pieceId).2
  mark := by rw [Device.lastAppliedAt, hmarks]; rfl
  recordings := by
    intro n _
    rw [haudio]
  counter := hseq.ge

/-- While strokes stand in their authors' layers and ids of notes have one author, the user's edits
leave every other author's slice alone. -/
theorem Device.leavesSlice_perform (env : Env) (edit : Edit) {author pieceId : String}
    (hne : author ≠ env.currentUserId) (howned : ∀ q, (d.annotationsFor q).StrokesOwned)
    (hids : ∀ q, (d.annotationsFor q).NoteIdsOwned) :
    d.LeavesSlice author pieceId ((edit.perform env).exec d).2 := by
  have hkeeps : ∀ {γ : Type} (view : Device → γ),
      (∀ d p b, view (Device.cacheAnnotations d p b) = view d) →
      (∀ d p b, view (Device.storeAnnotations d p b) = view d) →
      view ((edit.perform env).exec d).2 = view d := fun view hc hs =>
    keeps_perform view env edit hc hs d
  exact (Device.sameOthers_perform env edit howned hids).leavesSlice hne
    (hkeeps (·.pieces) (fun _ _ _ => rfl) fun _ _ _ => rfl)
    (hkeeps (·.storage.lastApplied) (fun _ _ _ => rfl) fun _ _ _ => rfl)
    (hkeeps (·.audioAssets) (fun _ _ _ => rfl) fun _ _ _ => rfl)
    (hkeeps (·.audioSeq) (fun _ _ _ => rfl) fun _ _ _ => rfl)

/-- An export leaves every slice alone. -/
theorem Device.leavesSlice_exportBundle (env : Env) (exported : String) (authorId : Option String)
    (author pieceId : String) :
    d.LeavesSlice author pieceId ((exportBundle env exported authorId).exec d).2 := by
  have hkeeps : ∀ {γ : Type} (view : Device → γ),
      (∀ d : Device, view (d.cacheAnnotations exported (d.annotationsFor exported)) = view d) →
      (∀ (d : Device) shared,
        view { d with storage := { d.storage with baseShared := shared } } = view d) →
      view ((exportBundle env exported authorId).exec d).2 = view d := fun view hc hs =>
    keeps_exportBundle view env exported authorId hc hs d
  have hannotations := hkeeps (·.annotationsFor)
    (fun d => funext (d.annotationsFor_cacheAnnotations_self exported)) fun _ _ => rfl
  have hpieces := hkeeps (·.pieces) (fun _ => rfl) fun _ _ => rfl
  have hmarks := hkeeps (·.storage.lastApplied) (fun _ => rfl) fun _ _ => rfl
  constructor
  · intro hheld
    rwa [Device.findPiece, hpieces]
  · rw [hannotations]
  · rw [hannotations]
  · rw [Device.lastAppliedAt, hmarks]
    rfl
  · intro n _
    rw [hkeeps (·.audioAssets) (fun _ => rfl) fun _ _ => rfl]
  · rw [hkeeps (·.audioSeq) (fun _ => rfl) fun _ _ => rfl]

/-- A run offers the slices it delivers to the author's register, one after another. -/
theorem receive_offers {author pieceId : String} {events : List (ReceiverEvent author pieceId)}
    (hheld : (d.findPiece pieceId).isSome = true) (hplays : d.Plays author pieceId)
    (hothers : EachStep (ReceiverEvent.step sha256) ReceiverEvent.OthersLeave d events)
    (hrun : run (ReceiverEvent.step sha256) d events = some d') :
    d'.register author pieceId = (d.register author pieceId).offers
        ((ReceiverEvent.delivered events).map (·.revision)) ∧
      (d'.findPiece pieceId).isSome = true ∧ d'.Plays author pieceId := by
  induction events generalizing d with
  | nil =>
    obtain rfl := Option.some.inj hrun
    exact ⟨rfl, hheld, hplays⟩
  | cons event events ih =>
    obtain ⟨t, ht, hrest⟩ := run_cons_eq_some.mp hrun
    obtain ⟨hcond, hothers⟩ := hothers
    cases event with
    | deliver env share =>
      obtain ⟨summary, hexec⟩ := ReceiverEvent.step_deliver ht
      obtain ⟨hregister, -, -, hpieces, hkeeps⟩ := share.receive hheld hexec
      have hheld' : (t.findPiece pieceId).isSome = true := by
        rwa [Device.findPiece, hpieces]
      have hoffers := ih hheld' (hkeeps hplays) (hothers t ht) hrest
      rw [hregister] at hoffers
      exact hoffers
    | other operation =>
      have hleaves : d.LeavesSlice author pieceId t := Option.some.inj ht ▸ hcond
      have hoffers := ih (hleaves.held hheld) (hleaves.plays hplays) (hothers t ht) hrest
      rw [hleaves.register] at hoffers
      exact hoffers

/-! ## Two authors -/

/-- Replacing the slices of two authors in either order gives the same layers and notes. -/
theorem PieceAnnotations.replaceSlice_comm (a : PieceAnnotations) {l₁ l₂ : InkLayer}
    {n₁ n₂ m₁ m₂ : List AudioNote} (hne : l₁.ownerId ≠ l₂.ownerId)
    (hn₁ : ∀ n ∈ n₁, n.authorId = l₁.ownerId) (hn₂ : ∀ n ∈ m₂, n.authorId = l₂.ownerId)
    (h₁ : m₁.map (·.modAsset) = n₁.map (·.modAsset))
    (h₂ : m₂.map (·.modAsset) = n₂.map (·.modAsset)) :
    ((a.replaceSlice l₁ n₁).replaceSlice l₂ n₂).layers.Perm
        ((a.replaceSlice l₂ m₂).replaceSlice l₁ m₁).layers ∧
      (((a.replaceSlice l₁ n₁).replaceSlice l₂ n₂).audioNotes.map (·.modAsset)).Perm
        (((a.replaceSlice l₂ m₂).replaceSlice l₁ m₁).audioNotes.map (·.modAsset)) := by
  have hkeep₁ : n₁.filter (fun n => n.authorId != l₂.ownerId) = n₁ := by
    rw [List.filter_eq_self]
    intro n hn
    simpa [hn₁ n hn] using hne
  have hkeep₂ : m₂.filter (fun n => n.authorId != l₁.ownerId) = m₂ := by
    rw [List.filter_eq_self]
    intro n hn
    simpa [hn₂ n hn] using Ne.symm hne
  have hlayer₁ : [l₁].filter (fun l => l.ownerId != l₂.ownerId) = [l₁] := by simp [hne]
  have hlayer₂ : [l₂].filter (fun l => l.ownerId != l₁.ownerId) = [l₂] := by simp [Ne.symm hne]
  simp only [replaceSlice, List.filter_append, hkeep₁, hkeep₂, hlayer₁, hlayer₂, List.map_append,
    h₁, h₂, List.filter_filter, List.append_assoc]
  have hand : ∀ x y : Bool, (x && y) = (y && x) := Bool.and_comm
  constructor
  · rw [List.filter_congr fun l _ => hand _ _]
    exact List.Perm.append_left _ List.perm_append_comm
  · rw [List.filter_congr fun n _ => hand _ _]
    exact List.Perm.append_left _ List.perm_append_comm

theorem lastAppliedKey_injective {pieceId author other : String}
    (h : lastAppliedKey pieceId author = lastAppliedKey pieceId other) : author = other := by
  unfold lastAppliedKey at h
  exact String.append_right_inj _ |>.mp h

/-- What a successful import does to the annotations of its piece, and to another author's mark. -/
theorem Share.receive_annotations {author pieceId : String} (share : Share author pieceId)
    {summary : ReviewBundleSummary} {piece : Piece} (hfind : d.findPiece pieceId = some piece)
    (h : (importBundle sha256 env (some share.archive)).exec d = (.ok summary, d')) :
    d'.findPiece pieceId = some piece ∧
    (∀ other, other ≠ author → d'.lastAppliedAt pieceId other = d.lastAppliedAt pieceId other) ∧
    ∃ notes : List AudioNote, (∀ n ∈ notes, n.authorId = author) ∧
      notes.map (·.modAsset) = share.slice.notes ∧
      d'.annotationsFor pieceId = if share.exportedAt ≤ d.lastAppliedAt pieceId author then
          d.annotationsFor pieceId
        else { d.annotationsFor pieceId with pieceId := pieceId }.replaceSlice
          ⟨author, roleOf piece author, share.manifest.strokes, none⟩ notes := by
  have hheld : (d.findPiece pieceId).isSome = true := by simp [hfind]
  refine ⟨?_, ?_, d.notesImported env share.manifest, share.authorId_notesImported env,
    map_modAsset_importedNotes _ _ _, ?_⟩ <;>
  rcases share.receive_cases hheld h with ⟨hstale, rfl⟩ | ⟨hnewer, -, held, files, hheld', rfl⟩
  · exact hfind
  · exact hfind
  · exact fun _ _ => rfl
  · intro other hne
    rw [Device.lastAppliedAt, lastApplied_imported, if_neg]
    · rfl
    · rw [share.wellAuthored.pieceId, share.wellAuthored.authorId]
      exact fun heq => hne (lastAppliedKey_injective heq)
  · rw [if_pos hstale]
  · obtain rfl := Option.some.inj (hfind.symm.trans hheld')
    rw [if_neg (not_le.mpr hnewer), share.annotationsFor_imported, if_pos rfl]

/-- Bundles of two authors may be imported in either order: the layers are the same, and so are the
notes up to their asset ids. -/
theorem imports_commute {author other pieceId : String} (hne : other ≠ author)
    (share : Share author pieceId) (share' : Share other pieceId) {env₁ env₂ env₃ env₄ : Env}
    {s₁ s₂ s₃ s₄ : ReviewBundleSummary} {d₁ d₂ d₃ d₄ : Device}
    (hheld : (d.findPiece pieceId).isSome = true)
    (h₁ : (importBundle sha256 env₁ (some share.archive)).exec d = (.ok s₁, d₁))
    (h₂ : (importBundle sha256 env₂ (some share'.archive)).exec d₁ = (.ok s₂, d₂))
    (h₃ : (importBundle sha256 env₃ (some share'.archive)).exec d = (.ok s₃, d₃))
    (h₄ : (importBundle sha256 env₄ (some share.archive)).exec d₃ = (.ok s₄, d₄)) :
    (d₂.annotationsFor pieceId).layers.Perm (d₄.annotationsFor pieceId).layers ∧
      ((d₂.annotationsFor pieceId).audioNotes.map (·.modAsset)).Perm
        ((d₄.annotationsFor pieceId).audioNotes.map (·.modAsset)) := by
  obtain ⟨piece, hfind⟩ := Option.isSome_iff_exists.mp hheld
  obtain ⟨hfind₁, hmark₁, n₁, hauthors₁, hnotes₁, hann₁⟩ := share.receive_annotations hfind h₁
  obtain ⟨-, -, n₂, hauthors₂, hnotes₂, hann₂⟩ := share'.receive_annotations hfind₁ h₂
  obtain ⟨hfind₃, hmark₃, n₃, hauthors₃, hnotes₃, hann₃⟩ := share'.receive_annotations hfind h₃
  obtain ⟨-, -, n₄, hauthors₄, hnotes₄, hann₄⟩ := share.receive_annotations hfind₃ h₄
  rw [hmark₁ other hne] at hann₂
  rw [hmark₃ author (Ne.symm hne)] at hann₄
  rw [hann₂, hann₄, hann₁, hann₃]
  have hsame : n₄.map (·.modAsset) = n₁.map (·.modAsset) := hnotes₄.trans hnotes₁.symm
  have hsame' : n₃.map (·.modAsset) = n₂.map (·.modAsset) := hnotes₃.trans hnotes₂.symm
  -- each of the two bundles is stale in both orders, or in neither
  by_cases hstale : share.exportedAt ≤ d.lastAppliedAt pieceId author <;>
    by_cases hstale' : share'.exportedAt ≤ d.lastAppliedAt pieceId other <;>
    simp only [hstale, hstale', if_true, if_false]
  · exact ⟨.refl _, .refl _⟩
  · refine ⟨.refl _, .of_eq ?_⟩
    simp [PieceAnnotations.replaceSlice, hsame']
  · refine ⟨.refl _, .of_eq ?_⟩
    simp [PieceAnnotations.replaceSlice, hsame]
  · exact (d.annotationsFor pieceId).replaceSlice_comm (Ne.symm hne) hauthors₁ hauthors₃ hsame
      hsame'

/-! ## Convergence -/

/-- A device that holds the piece and has nothing of the author's yet. -/
structure Device.AwaitsSlice (d : Device) (author pieceId : String) : Prop where
  held : (d.findPiece pieceId).isSome = true
  unmarked : d.lastAppliedAt pieceId author = 0
  noNotes : (d.annotationsFor pieceId).notesBy author = []

/-- What holds of the author's slice once some bundles have been delivered. -/
structure Device.Converged (sha256 : Content → String) (author pieceId : String)
    (delivered : List (Share author pieceId)) (d : Device) : Prop where
  /-- The device holds the slice of the newest bundle. -/
  newest : ∀ share ∈ delivered, (∀ other ∈ delivered, other.exportedAt ≤ share.exportedAt) →
    (d.annotationsFor pieceId).sliceOf author = share.slice
  /-- Every live note of it resolves to a stored recording. -/
  resolves : ∀ n ∈ (d.annotationsFor pieceId).notesBy author, n.isTombstoned = false →
    ∃ asset, d.audioAssets.get n.audioAssetId = some asset
  /-- A bundle that is not newer than all of them changes nothing. -/
  dropsOld : ∀ share : Share author pieceId, (∃ other ∈ delivered,
    share.exportedAt ≤ other.exportedAt) → ∀ env summary d',
      (importBundle sha256 env (some share.archive)).exec d = (.ok summary, d') → d' = d
  /-- No bundle of the author's changes another author's slice. -/
  keepsOthers : ∀ (share : Share author pieceId) env summary d',
    (importBundle sha256 env (some share.archive)).exec d = (.ok summary, d') →
      d.SameOthers author d'
  /-- A bundle of the author's and one of another author's may be imported in either order. -/
  commutes : ∀ other, other ≠ author → ∀ (share : Share author pieceId)
    (share' : Share other pieceId) env₁ env₂ env₃ env₄ s₁ s₂ s₃ s₄ d₁ d₂ d₃ d₄,
    (importBundle sha256 env₁ (some share.archive)).exec d = (.ok s₁, d₁) →
    (importBundle sha256 env₂ (some share'.archive)).exec d₁ = (.ok s₂, d₂) →
    (importBundle sha256 env₃ (some share'.archive)).exec d = (.ok s₃, d₃) →
    (importBundle sha256 env₄ (some share.archive)).exec d₃ = (.ok s₄, d₄) →
      (d₂.annotationsFor pieceId).layers.Perm (d₄.annotationsFor pieceId).layers ∧
        ((d₂.annotationsFor pieceId).audioNotes.map (·.modAsset)).Perm
          ((d₄.annotationsFor pieceId).audioNotes.map (·.modAsset))

/-- Exports at different times are told apart by them. -/
theorem Share.eq_of_exportedAt {author pieceId : String} {shares : List (Share author pieceId)}
    (h : shares.Pairwise fun s t => s.exportedAt < t.exportedAt) {s t : Share author pieceId}
    (hs : s ∈ shares) (ht : t ∈ shares) (heq : s.exportedAt = t.exportedAt) : s = t := by
  have hapart := List.Pairwise.forall_of_forall_of_flip
    (R := fun s t : Share author pieceId => s.exportedAt = t.exportedAt → s = t)
    (fun _ _ _ => rfl) (h.imp fun hlt heq => absurd hlt (by omega))
    (h.imp fun hlt heq => absurd hlt (by omega))
  exact hapart hs ht heq

/-- A device that imports an author's exports, in any order and with any repetition, converges to
the newest one delivered, whatever else it does in between without touching the author's slice. -/
theorem Device.converges {sha256 : Content → String} {author pieceId : String} {d d' : Device}
    {shares : List (Share author pieceId)} {events : List (ReceiverEvent author pieceId)}
    (hincreasing : shares.Pairwise fun s t => s.exportedAt < t.exportedAt)
    (hpositive : ∀ s ∈ shares, 0 < s.exportedAt)
    (hshares : ∀ s ∈ ReceiverEvent.delivered events, s ∈ shares)
    (hstart : d.AwaitsSlice author pieceId)
    (hothers : EachStep (ReceiverEvent.step sha256) ReceiverEvent.OthersLeave d events)
    (hrun : run (ReceiverEvent.step sha256) d events = some d') :
    d'.Converged sha256 author pieceId (ReceiverEvent.delivered events) := by
  have hplays : d.Plays author pieceId :=
    ⟨by simp [hstart.noNotes], by simp [hstart.noNotes]⟩
  obtain ⟨hregister, hheld, hplays'⟩ := receive_offers hstart.held hplays hothers hrun
  have hmark : ∀ s ∈ ReceiverEvent.delivered events,
      s.exportedAt ≤ d'.lastAppliedAt pieceId author := by
    intro s hs
    have hle := (Revisioned.revision_le_offers (d.register author pieceId)
      ((ReceiverEvent.delivered events).map (·.revision))).2 s.revision (List.mem_map_of_mem hs)
    rw [← hregister] at hle
    exact hle
  constructor
  case newest =>
    intro share hshare hnewest
    have hfinal : d'.register author pieceId = share.revision := by
      rw [hregister]
      refine Revisioned.offers_eq_newest (List.mem_map_of_mem hshare) ?_ ?_ ?_
      · change d.lastAppliedAt pieceId author < share.exportedAt
        rw [hstart.unmarked]
        exact hpositive share (hshares share hshare)
      · intro r hr
        obtain ⟨other, hother, rfl⟩ := List.mem_map.mp hr
        exact hnewest other hother
      · intro r hr heq
        obtain ⟨other, hother, rfl⟩ := List.mem_map.mp hr
        rw [Share.eq_of_exportedAt hincreasing (hshares other hother) (hshares share hshare) heq]
    exact congrArg Revisioned.value hfinal
  case resolves => exact hplays'.stored
  case dropsOld =>
    rintro share ⟨other, hother, hle⟩ env summary d'' hexec
    exact (share.receive hheld hexec).2.1 (hle.trans (hmark other hother))
  case keepsOthers =>
    intro share env summary d'' hexec
    exact (share.receive hheld hexec).2.2.1
  case commutes =>
    intro other hne share share' env₁ env₂ env₃ env₄ s₁ s₂ s₃ s₄ d₁ d₂ d₃ d₄ h₁ h₂ h₃ h₄
    exact imports_commute hne share share' hheld h₁ h₂ h₃ h₄

/-! ## A device that receives two exports -/

/-- The bundle of an export that succeeds. -/
def Share.ofExport {author pieceId : String} (env : Env) (device : Device) (authorId : Option String)
    (hok : ((exportBundle env pieceId authorId).exec device).1.toOption.isSome = true)
    (isAuthor : authorId.getD env.currentUserId = author) : Share author pieceId where
  env := env
  device := device
  authorId := authorId
  exported := ((exportBundle env pieceId authorId).exec device).1.toOption.get hok
  after := ((exportBundle env pieceId authorId).exec device).2
  succeeds := Prod.ext (eq_ok_get hok) rfl
  isAuthor := isAuthor

/-- A second after noon. -/
def secondAfterNoon : DateTime := ⟨43201000000, by decide⟩

/-- The device of `bob` once he has added a stroke to the sonata. -/
def bobsDevice : Device :=
  ((addStroke (Env.quiet "bob" noon) "p" ⟨"s", "bob", 0, "red", []⟩).exec sonataDevice).2

/-- `bob`'s exports before he adds the stroke, and after. -/
def bobsFirst : Share "bob" "p" :=
  .ofExport (Env.quiet "bob" noon) sonataDevice none (by decide +kernel) rfl

def bobsSecond : Share "bob" "p" :=
  .ofExport (Env.quiet "bob" secondAfterNoon) bobsDevice none (by decide +kernel) rfl

/-- The second export arrives before the first. -/
def outOfOrder : List (ReceiverEvent "bob" "p") :=
  [.deliver (Env.quiet "ann" noon) bobsSecond, .deliver (Env.quiet "ann" noon) bobsFirst]

theorem Device.converges_outOfOrder :
    ∃ d', run (ReceiverEvent.step fun _ => "sum") sonataDevice outOfOrder = some d' ∧
      d'.Converged (fun _ => "sum") "bob" "p" [bobsSecond, bobsFirst] := by
  have hruns : (run (ReceiverEvent.step fun _ => "sum") sonataDevice outOfOrder).isSome = true := by
    decide +kernel
  obtain ⟨d', hrun⟩ := Option.isSome_iff_exists.mp hruns
  have hfirst : bobsFirst.exportedAt = 43200000 := by decide +kernel
  have hsecond : bobsSecond.exportedAt = 43201000 := by decide +kernel
  have hincreasing : [bobsFirst, bobsSecond].Pairwise fun s t => s.exportedAt < t.exportedAt := by
    simp [hfirst, hsecond]
  refine ⟨d', hrun, Device.converges hincreasing ?_ ?_ ?_ ?_ hrun⟩
  · simp [hfirst, hsecond]
  · simp [outOfOrder, ReceiverEvent.delivered]
  · exact ⟨rfl, rfl, rfl⟩
  · exact ⟨trivial, fun _ _ => ⟨trivial, fun _ _ => trivial⟩⟩

end Duet
