import Duet.Lib.Transition
import Duet.ReviewSync.Export
import Duet.ReviewSync.Import

/-!
# Importing one's own bundle

The history of a device: its user's edits, exports and imports. Every export is remembered with
the edits made since. The mark that drops old bundles is advanced by imports only, so an own
bundle that has not been imported before replaces the user's slice, whatever has been edited
since it was exported.

## Main results

* `presentIn_replaceSlice_iff` — what a piece holds after a slice has been replaced.
* `History.lossless_iff` — when one import loses no edit.
* `History.selfImport_lossless_iff` — the same for every import of a history.
-/

namespace Duet

open Lib Effect

/-- A stroke or a recording that a user puts on a piece. -/
inductive Item where
  | stroke (pieceId : String) (stroke : InkStroke)
  | note (pieceId : String) (note : AudioNote)
  deriving DecidableEq, Repr

namespace Item

def pieceId : Item → String
  | stroke pieceId _ => pieceId
  | note pieceId _ => pieceId

/-- The edit adds the item. -/
def AddedBy : Item → Edit → Prop
  | stroke pieceId s, .addStroke p t => p = pieceId ∧ t = s
  | note pieceId n, .addAudioNote p m => p = pieceId ∧ m = n
  | _, _ => False

/-- The edit adds an item with the id of this one. -/
def IdAddedBy : Item → Edit → Prop
  | stroke pieceId s, .addStroke p t => p = pieceId ∧ t.id = s.id
  | note pieceId n, .addAudioNote p m => p = pieceId ∧ m.id = n.id
  | _, _ => False

/-- The edit erases the item. -/
def ErasedBy : Item → Edit → Prop
  | stroke pieceId s, .eraseStroke p id => p = pieceId ∧ id = s.id
  | note pieceId n, .deleteAudioNote p id => p = pieceId ∧ id = n.id
  | _, _ => False

instance (item : Item) : DecidablePred item.AddedBy := fun edit => by
  cases item <;> cases edit <;> unfold AddedBy <;> infer_instance

instance (item : Item) : DecidablePred item.IdAddedBy := fun edit => by
  cases item <;> cases edit <;> unfold IdAddedBy <;> infer_instance

instance (item : Item) : DecidablePred item.ErasedBy := fun edit => by
  cases item <;> cases edit <;> unfold ErasedBy <;> infer_instance

/-- Among the edits, latest first, the item is added and not erased any more. -/
def Added (item : Item) (edits : List Edit) : Prop :=
  ∃ edit ∈ edits.takeWhile fun edit => !decide (item.ErasedBy edit), item.AddedBy edit

/-- Among the edits, latest first, the item is erased and its id not added any more. -/
def Erased (item : Item) (edits : List Edit) : Prop :=
  ∃ edit ∈ edits.takeWhile fun edit => !decide (item.IdAddedBy edit), item.ErasedBy edit

instance (item : Item) (edits : List Edit) : Decidable (item.Added edits) :=
  inferInstanceAs (Decidable (∃ edit ∈ _, _))

instance (item : Item) (edits : List Edit) : Decidable (item.Erased edits) :=
  inferInstanceAs (Decidable (∃ edit ∈ _, _))

/-- The annotations hold the item: the stroke in some layer, or the note, live, up to its asset id
and the precision of its times. -/
def PresentIn (a : PieceAnnotations) : Item → Prop
  | stroke _ s => ∃ l ∈ a.layers, s ∈ l.strokes
  | note _ n => ∃ m ∈ a.audioNotes, m.isTombstoned = false ∧ m.transported = n.transported

instance (a : PieceAnnotations) : DecidablePred (PresentIn a) := fun item => by
  cases item <;> unfold PresentIn <;> infer_instance

/-- The manifest carries the item. -/
def CarriedBy (manifest : ReviewManifest) : Item → Prop
  | stroke _ s => s ∈ manifest.strokes
  | note _ n => ∃ entry ∈ manifest.audioEntries,
      entry.note.isTombstoned = false ∧ entry.note.transported = n.transported

end Item

/-- The annotations without the slice of one author. -/
def PieceAnnotations.others (a : PieceAnnotations) (authorId : String) : PieceAnnotations :=
  { a with
    layers := a.layers.filter fun l => l.ownerId != authorId
    audioNotes := a.audioNotes.filter fun n => n.authorId != authorId }

/-! ## What an import brings -/

variable {sha256 : Content → String} {env : Env} {archive : Archive} {manifest : ReviewManifest}
  {bundle : Option Archive} {d : Device}

/-- A note is imported for every entry, up to its asset id. -/
theorem exists_importedNotes_iff (env : Env) (i seq : Nat) (entries : List ManifestAudioEntry)
    (n : AudioNote) :
    (∃ m ∈ importedNotes env i seq entries, m.isTombstoned = false ∧
      m.transported = n.transported) ↔
    ∃ entry ∈ entries, entry.note.isTombstoned = false ∧
      entry.note.transported = n.transported := by
  induction entries generalizing i seq with
  | nil => simp [importedNotes]
  | cons entry rest ih =>
    have hlive : (importedNote env i seq entry).isTombstoned = entry.note.isTombstoned := by
      unfold importedNote
      split_ifs <;> simp
    have hsame : (importedNote env i seq entry).transported = entry.note.transported := by
      unfold importedNote
      split_ifs <;> rfl
    simp only [importedNotes, List.mem_cons, exists_eq_or_imp, hlive, hsame]
    exact or_congr_right (ih _ _)

/-- After a slice has been replaced, a piece holds what the other slices hold and what the
manifest carries. -/
theorem presentIn_replaceSlice_iff (role : PieceRole) (item : Item) :
    item.PresentIn (d.sliceReplaced manifest role (d.notesImported env manifest)) ↔
      item.PresentIn ((d.annotationsFor manifest.pieceId).others manifest.authorId) ∨
        item.CarriedBy manifest := by
  unfold Device.sliceReplaced PieceAnnotations.replaceSlice PieceAnnotations.others
  cases item with
  | stroke pieceId s =>
    simp only [Item.PresentIn, Item.CarriedBy, List.mem_append, List.mem_singleton, or_and_right,
      exists_or, exists_eq_left]
  | note pieceId n =>
    simp only [Item.PresentIn, Item.CarriedBy, List.mem_append, or_and_right, exists_or]
    exact or_congr_right (exists_importedNotes_iff env 0 d.audioSeq manifest.audioEntries n)

/-! ## Histories -/

/-- A bundle the user has exported, and the edits since, latest first. -/
structure ExportRecord where
  archive : Archive
  since : List Edit
  deriving DecidableEq, Repr

/-- A device and the bundles exported from it. -/
structure History where
  device : Device
  exports : List ExportRecord
  deriving DecidableEq, Repr

/-- What the user does on the device. An import takes any bundle file. -/
inductive HistoryEvent where
  | edit (env : Env) (edit : Edit)
  | exportBundle (env : Env) (pieceId : String) (authorId : Option String)
  | importBundle (env : Env) (bundle : Option Archive)

/-- The surroundings of the event's call. -/
def HistoryEvent.callEnv : HistoryEvent → Env
  | edit callEnv _ => callEnv
  | exportBundle callEnv _ _ => callEnv
  | importBundle callEnv _ => callEnv

namespace History

/-- An edit that succeeds is remembered with every export. -/
def afterEdit (h : History) (edit : Edit) : Except Failure Unit × Device → History
  | (.ok _, d) => ⟨d, h.exports.map fun record => { record with since := edit :: record.since }⟩
  | (.error _, d) => { h with device := d }

/-- An export that succeeds is remembered. -/
def afterExport (h : History) : Except Failure ExportedBundle × Device → History
  | (.ok exported, d) => ⟨d, ⟨exported.archive, []⟩ :: h.exports⟩
  | (.error _, d) => { h with device := d }

/-- One call by `user`. -/
def step (sha256 : Content → String) (user : String) (h : History) (event : HistoryEvent) :
    Option History :=
  if event.callEnv.currentUserId ≠ user then none
  else match event with
    | .edit env edit => some (h.afterEdit edit ((edit.perform env).exec h.device))
    | .exportBundle env pieceId authorId =>
      some (h.afterExport ((Duet.exportBundle env pieceId authorId).exec h.device))
    | .importBundle env bundle =>
      some { h with device := ((Duet.importBundle sha256 env bundle).exec h.device).2 }

/-- An import of an own bundle loses no edit made since its export: what the user has added since
and not erased stays, and what the user has erased since does not come back. -/
def Lossless (sha256 : Content → String) (user : String) (h : History) : HistoryEvent → Prop
  | .importBundle env bundle =>
    env.currentUserId = user → ∀ archive manifest, opened? env bundle = some (archive, manifest) →
      manifest.authorId = user → ∀ record ∈ h.exports, record.archive = archive →
      ∀ item : Item,
        let before := h.device.annotationsFor item.pieceId
        let after := ((Duet.importBundle sha256 env bundle).exec h.device).2.annotationsFor
          item.pieceId
        (item.Added record.since → item.PresentIn before → item.PresentIn after) ∧
          (item.Erased record.since → item.PresentIn after → item.PresentIn before)
  | _ => True

/-- When an own bundle gets to replacing the user's slice, it carries what has been added to its
piece since its export, and nothing that has been erased. -/
def CarriesEdits (sha256 : Content → String) (user : String) (h : History) : HistoryEvent → Prop
  | .importBundle env bundle =>
    env.currentUserId = user → ∀ archive manifest, opened? env bundle = some (archive, manifest) →
      manifest.authorId = user → ReplacesSlice sha256 env archive manifest h.device →
      ∀ record ∈ h.exports, record.archive = archive →
      ∀ item : Item, item.pieceId = manifest.pieceId →
        let before := h.device.annotationsFor manifest.pieceId
        (item.Added record.since → item.PresentIn before →
          item.PresentIn (before.others user) ∨ item.CarriedBy manifest) ∧
          (item.Erased record.since → item.CarriedBy manifest → item.PresentIn before)
  | _ => True

/-- What stands in the other slices stands on the piece. -/
theorem presentIn_of_others {a : PieceAnnotations} {user : String} {item : Item}
    (h : item.PresentIn (a.others user)) : item.PresentIn a := by
  cases item with
  | stroke pieceId s =>
    obtain ⟨l, hl, hs⟩ := h
    exact ⟨l, List.mem_of_mem_filter hl, hs⟩
  | note pieceId n =>
    obtain ⟨m, hm, hn⟩ := h
    exact ⟨m, List.mem_of_mem_filter hm, hn⟩

/-- One import loses no edit exactly when it replaces no slice, or by one that agrees with the edits
made since the export. -/
theorem lossless_iff (sha256 : Content → String) (user : String) (h : History)
    (event : HistoryEvent) : Lossless sha256 user h event ↔ CarriesEdits sha256 user h event := by
  cases event with
  | edit env edit => exact .rfl
  | exportBundle env pieceId authorId => exact .rfl
  | importBundle env bundle =>
    unfold Lossless CarriesEdits
    refine forall_congr' fun _ => forall_congr' fun archive => forall_congr' fun manifest =>
      forall_congr' fun hopen => forall_congr' fun hauthor => ?_
    obtain ⟨hreplaced, hsame⟩ := annotationsFor_importBundle sha256 hopen h.device
    by_cases hreplaces : ReplacesSlice sha256 env archive manifest h.device
    · obtain ⟨role, hafter⟩ := hreplaced hreplaces
      rw [forall_prop_of_true hreplaces]
      refine forall₃_congr fun record _ _ => forall_congr' fun item => ?_
      by_cases hpiece : item.pieceId = manifest.pieceId
      · rw [forall_prop_of_true hpiece]
        dsimp only
        rw [hafter, if_pos hpiece, presentIn_replaceSlice_iff, hauthor, hpiece]
        have hothers : item.PresentIn ((h.device.annotationsFor manifest.pieceId).others user) →
            item.PresentIn (h.device.annotationsFor manifest.pieceId) := presentIn_of_others
        grind
      · simp [hafter, hpiece]
    · simp [hsame hreplaces, hreplaces]

/-- In a history, no import of an own bundle loses an edit made since its export exactly when each
own bundle that gets to replacing the user's slice agrees with the edits made since. -/
theorem selfImport_lossless_iff (sha256 : Content → String) (user : String) (h : History)
    (events : List HistoryEvent) :
    EachStep (step sha256 user) (Lossless sha256 user) h events ↔
      EachStep (step sha256 user) (CarriesEdits sha256 user) h events :=
  EachStep.congr (lossless_iff sha256 user)

/-! ## A history that loses a stroke -/

/-- The export of `ann`'s empty slice of the sonata. -/
def emptyExport : Archive :=
  match ((Duet.exportBundle (Env.quiet "ann" noon) "p" none).exec sonataDevice).1 with
  | .ok exported => exported.archive
  | .error _ => []

/-- The manifest it packs. -/
def emptyManifest : ReviewManifest :=
  ⟨1, "p", "Sonata", "ann", none, 43200000, "sum", none, [], []⟩

def laterStroke : InkStroke := ⟨"s", "ann", 0, "red", []⟩

/-- `ann` exports her slice and adds a stroke to it. -/
def strokeAfterExport : List HistoryEvent :=
  [.exportBundle (Env.quiet "ann" noon) "p" none,
    .edit (Env.quiet "ann" noon) (.addStroke "p" laterStroke)]

/-- The history after both. -/
def unexportedStroke : History :=
  ((run (step (fun _ => "sum") "ann") ⟨sonataDevice, []⟩ strokeAfterExport).getD ⟨sonataDevice, []⟩)

/-- Importing the export removes the stroke that was added after it. -/
theorem reimport_loses_stroke :
    ¬EachStep (step (fun _ => "sum") "ann") (Lossless (fun _ => "sum") "ann") ⟨sonataDevice, []⟩
      (strokeAfterExport ++ [.importBundle (Env.quiet "ann" noon) (some emptyExport)]) := by
  intro h
  have hrun : run (step (fun _ => "sum") "ann") ⟨sonataDevice, []⟩ strokeAfterExport =
      some unexportedStroke := by decide +kernel
  have himport := h.at_append hrun
  have hopen : opened? (Env.quiet "ann" noon) (some emptyExport) =
      some (emptyExport, emptyManifest) := by decide +kernel
  have hrecord : (⟨emptyExport, [.addStroke "p" laterStroke]⟩ : ExportRecord) ∈
      unexportedStroke.exports := by decide +kernel
  have hstroke := (himport rfl emptyExport emptyManifest hopen rfl _ hrecord rfl
    (.stroke "p" laterStroke)).1 (by decide)
  have hadded : (Item.stroke "p" laterStroke).PresentIn
      (unexportedStroke.device.annotationsFor "p") := by decide +kernel
  exact absurd (hstroke hadded) (by decide +kernel)

end History

end Duet
