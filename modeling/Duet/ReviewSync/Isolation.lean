import Duet.ReviewSync.Import

/-!
# Whose annotations an import changes

An import replaces the slice of the manifest's author. Every stroke and note names an author of
its own, which neither the manifest nor `replaceAuthorSlice` compares with the manifest's: a
bundle can carry strokes and notes of somebody else.

## Main results

* `sameForOthers_replaceSlice_iff` — when replacing a slice leaves everybody else's alone.
* `importBundle_sameForOthers_iff` — when an import does.
-/

namespace Duet

open Lib Effect

/-- For every author but `author`, the strokes and the notes are the same sets. -/
structure SameForOthers (author : String) (before after : PieceAnnotations) : Prop where
  strokes : ∀ a, a ≠ author → ∀ s, s ∈ after.strokesBy a ↔ s ∈ before.strokesBy a
  notes : ∀ a, a ≠ author → ∀ n, n ∈ after.notesBy a ↔ n ∈ before.notesBy a

theorem SameForOthers.refl (author : String) (a : PieceAnnotations) : SameForOthers author a a :=
  ⟨fun _ _ _ => .rfl, fun _ _ _ => .rfl⟩

/-- A slice with foreign content that changes nothing: its foreign strokes and notes are there
already, and the foreign strokes of the layer it replaces stay. -/
structure ForeignContentStored (a : PieceAnnotations) (author : String)
    (strokes : List InkStroke) (notes : List AudioNote) : Prop where
  strokesStored : ∀ s ∈ strokes, s.authorId ≠ author → ∃ l ∈ a.layers, s ∈ l.strokes
  strokesKept : ∀ l ∈ a.layers, l.ownerId = author → ∀ s ∈ l.strokes, s.authorId ≠ author →
    s ∈ strokes ∨ ∃ l' ∈ a.layers, l'.ownerId ≠ author ∧ s ∈ l'.strokes
  notesStored : ∀ n ∈ notes, n.authorId ≠ author → n ∈ a.audioNotes

variable {a : PieceAnnotations} {layer : InkLayer} {notes : List AudioNote}

theorem mem_strokesBy {s : InkStroke} {author : String} :
    s ∈ a.strokesBy author ↔ s.authorId = author ∧ ∃ l ∈ a.layers, s ∈ l.strokes := by
  simp [PieceAnnotations.strokesBy, and_comm]

theorem mem_notesBy {n : AudioNote} {author : String} :
    n ∈ a.notesBy author ↔ n.authorId = author ∧ n ∈ a.audioNotes := by
  simp [PieceAnnotations.notesBy, and_comm]

theorem mem_strokesBy_replaceSlice {s : InkStroke} {author : String} :
    s ∈ (a.replaceSlice layer notes).strokesBy author ↔ s.authorId = author ∧
      ((∃ l ∈ a.layers, l.ownerId ≠ layer.ownerId ∧ s ∈ l.strokes) ∨ s ∈ layer.strokes) := by
  simp only [mem_strokesBy, PieceAnnotations.replaceSlice, List.mem_append, List.mem_filter,
    bne_iff_ne, List.mem_singleton]
  constructor
  · rintro ⟨hs, l, ⟨hl, hne⟩ | rfl, hmem⟩
    · exact ⟨hs, .inl ⟨l, hl, hne, hmem⟩⟩
    · exact ⟨hs, .inr hmem⟩
  · rintro ⟨hs, ⟨l, hl, hne, hmem⟩ | hmem⟩
    · exact ⟨hs, l, .inl ⟨hl, hne⟩, hmem⟩
    · exact ⟨hs, layer, .inr rfl, hmem⟩

theorem mem_notesBy_replaceSlice {n : AudioNote} {author : String} (h : author ≠ layer.ownerId) :
    n ∈ (a.replaceSlice layer notes).notesBy author ↔
      n.authorId = author ∧ (n ∈ a.audioNotes ∨ n ∈ notes) := by
  simp only [mem_notesBy, PieceAnnotations.replaceSlice, List.mem_append, List.mem_filter,
    bne_iff_ne]
  constructor
  · rintro ⟨hn, ⟨hmem, -⟩ | hmem⟩
    · exact ⟨hn, .inl hmem⟩
    · exact ⟨hn, .inr hmem⟩
  · rintro ⟨hn, hmem | hmem⟩
    · exact ⟨hn, .inl ⟨hmem, by rwa [hn]⟩⟩
    · exact ⟨hn, .inr hmem⟩

/-- Replacing a slice leaves everybody else's strokes and notes alone exactly when it brings
nothing foreign that is new and drops nothing foreign. -/
theorem sameForOthers_replaceSlice_iff (a : PieceAnnotations) (layer : InkLayer)
    (notes : List AudioNote) :
    SameForOthers layer.ownerId a (a.replaceSlice layer notes) ↔
      ForeignContentStored a layer.ownerId layer.strokes notes := by
  constructor
  · intro h
    refine ⟨fun s hs hne => ?_, fun l hl howner s hs hne => ?_, fun n hn hne => ?_⟩
    · have hnew := (h.strokes _ hne s).mp (mem_strokesBy_replaceSlice.mpr ⟨rfl, .inr hs⟩)
      exact (mem_strokesBy.mp hnew).2
    · have hold := (h.strokes _ hne s).mpr (mem_strokesBy.mpr ⟨rfl, l, hl, hs⟩)
      exact (mem_strokesBy_replaceSlice.mp hold).2.symm
    · have hnew := (h.notes _ hne n).mp ((mem_notesBy_replaceSlice hne).mpr ⟨rfl, .inr hn⟩)
      exact (mem_notesBy.mp hnew).2
  · intro h
    refine ⟨fun author hne s => ?_, fun author hne n => ?_⟩
    · rw [mem_strokesBy_replaceSlice, mem_strokesBy]
      refine and_congr_right fun hs => ⟨?_, ?_⟩
      · rintro (⟨l, hl, -, hmem⟩ | hmem)
        · exact ⟨l, hl, hmem⟩
        · exact h.strokesStored s hmem (by rwa [hs])
      · rintro ⟨l, hl, hmem⟩
        by_cases howner : l.ownerId = layer.ownerId
        · exact (h.strokesKept l hl howner s hmem (by rwa [hs])).symm
        · exact .inl ⟨l, hl, howner, hmem⟩
    · rw [mem_notesBy_replaceSlice hne, mem_notesBy]
      refine and_congr_right fun hn => ⟨?_, .inl⟩
      rintro (hmem | hmem)
      · exact hmem
      · exact h.notesStored n hmem (by rwa [hn])

variable {sha256 : Content → String} {env : Env} {archive : Archive} {manifest : ReviewManifest}
  {bundle : Option Archive} {d d₁ d' : Device}

/-- The bundle's foreign content, as the device would import it, changes nothing on it. -/
def ReviewManifest.ForeignContentStoredOn (manifest : ReviewManifest) (env : Env) (d : Device) :
    Prop :=
  ForeignContentStored (d.annotationsFor manifest.pieceId) manifest.authorId manifest.strokes
    (d.notesImported env manifest)

/-- Resolving the piece of a bundle changes no annotations, no mark and nothing of the audio
store. -/
theorem Resolves.keeps {piece : Piece} (h : Resolves sha256 env archive manifest d piece d₁) :
    (∀ pieceId, d₁.annotationsFor pieceId = d.annotationsFor pieceId) ∧
      d₁.storage.lastApplied = d.storage.lastApplied ∧ d₁.audioAssets = d.audioAssets ∧
      d₁.audioSeq = d.audioSeq := by
  rcases h with ⟨-, -, rfl⟩ | ⟨-, -, files, rfl⟩
  · exact ⟨fun _ => rfl, rfl, rfl, rfl⟩
  · exact ⟨fun _ => rfl, rfl, rfl, rfl⟩

/-- A successful import leaves everybody but the manifest's author alone exactly when it is dropped
as stale, or when the foreign strokes and notes it carries are stored already and the foreign
strokes of the author's previous layer stay. -/
theorem importBundle_sameForOthers_iff {summary : ReviewBundleSummary}
    (h : (importBundle sha256 env bundle).exec d = (.ok summary, d'))
    (hopen : opened? env bundle = some (archive, manifest)) :
    (∀ pieceId, SameForOthers manifest.authorId (d.annotationsFor pieceId)
        (d'.annotationsFor pieceId)) ↔
      manifest.StaleOn d ∨ manifest.ForeignContentStoredOn env d := by
  obtain ⟨archive', manifest', piece, d₁, hopen', hresolve, hcase⟩ := importBundle_ok h
  obtain ⟨rfl, rfl⟩ := Prod.mk.inj (Option.some.inj (hopen.symm.trans hopen'))
  obtain ⟨hannotations, hmark, hassets, hseq⟩ := hresolve.keeps
  have hstale : manifest.StaleOn d₁ ↔ manifest.StaleOn d := by
    simp only [ReviewManifest.StaleOn, Device.lastAppliedAt, hmark]
  rcases hcase with ⟨hs, rfl⟩ | ⟨hs, -, files, rfl⟩
  · refine iff_of_true (fun pieceId => ?_) (.inl (hstale.mp hs))
    rw [hannotations]
    exact .refl _ _
  -- the slice is replaced: only the manifest's piece is in question
  have hnotes : d₁.notesImported env manifest = d.notesImported env manifest := by
    simp only [Device.notesImported, hseq]
  have hslice := sameForOthers_replaceSlice_iff
    { d.annotationsFor manifest.pieceId with pieceId := manifest.pieceId }
    ⟨manifest.authorId, roleOf piece manifest.authorId, manifest.strokes, none⟩
    (d.notesImported env manifest)
  have hpiece : SameForOthers manifest.authorId (d.annotationsFor manifest.pieceId)
      (d₁.sliceReplaced manifest (roleOf piece manifest.authorId)
        (d₁.notesImported env manifest)) ↔ manifest.ForeignContentStoredOn env d := by
    rw [Device.sliceReplaced, hannotations, hnotes]
    refine Iff.trans ⟨fun h => ⟨h.strokes, h.notes⟩, fun h => ⟨h.strokes, h.notes⟩⟩
      (hslice.trans ⟨fun h => ⟨h.1, h.2, h.3⟩, fun h => ⟨h.1, h.2, h.3⟩⟩)
  rw [← hpiece, or_iff_right (fun hd => hs (hstale.mpr hd))]
  constructor
  · intro hsame
    have := hsame manifest.pieceId
    rwa [annotationsFor_imported, if_pos rfl] at this
  · intro hsame pieceId
    rw [annotationsFor_imported]
    split_ifs with hp
    · rw [hp]
      exact hsame
    · rw [hannotations]
      exact .refl _ _

/-- A bundle of `bob` that carries a stroke in the name of `ann`. -/
def forgedManifest : ReviewManifest :=
  ⟨1, "p", "Sonata", "bob", none, 1, "sum", none, [⟨"s", "ann", 0, "red", []⟩], []⟩

theorem importBundle_sameForOthers_iff_forged :
    (∀ pieceId, SameForOthers "bob" (sonataDevice.annotationsFor pieceId)
        (((importBundle (fun _ => "sum") (Env.quiet "ann" noon) forgedManifest.alone).exec
          sonataDevice).2.annotationsFor pieceId)) ↔
      forgedManifest.StaleOn sonataDevice ∨
        forgedManifest.ForeignContentStoredOn (Env.quiet "ann" noon) sonataDevice := by
  have hexec : (importBundle (fun _ => "sum") (Env.quiet "ann" noon) forgedManifest.alone).exec
      sonataDevice = (.ok ⟨"Sonata", 1, 0, ⟨1000, by decide⟩⟩, _) := Prod.ext (by decide) rfl
  have hopen : opened? (Env.quiet "ann" noon) forgedManifest.alone =
      some ([⟨"manifest.json", .json forgedManifest.toJson⟩], forgedManifest) := by decide
  exact importBundle_sameForOthers_iff hexec hopen

/-- The import succeeds, and `ann` has a stroke she has never drawn. -/
theorem importBundle_adds_forged_stroke :
    ∃ summary d', (importBundle (fun _ => "sum") (Env.quiet "ann" noon)
        forgedManifest.alone).exec sonataDevice = (.ok summary, d') ∧
      ¬SameForOthers forgedManifest.authorId (sonataDevice.annotationsFor "p")
        (d'.annotationsFor "p") := by
  refine ⟨⟨"Sonata", 1, 0, ⟨1000, by decide⟩⟩, _, Prod.ext (by decide) rfl, fun h => ?_⟩
  have hstroke := (h.strokes "ann" (by decide) ⟨"s", "ann", 0, "red", []⟩).mp (by decide)
  exact absurd hstroke (by decide)

end Duet
