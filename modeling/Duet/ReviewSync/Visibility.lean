import Duet.ReviewSync.Isolation
import Duet.ReviewSync.Ownership
import Duet.Score.Layers

/-!
# Whether imported ink is shown

An import stores the author's layer under their id, while the score view shows one layer for each
participant that the receiving device has recorded for the piece. The two lists come together only
where the device creates the piece from the bundle: it then records the author as the owner.

## Main results

* `Device.showsInk_iff` — a device that has the author's layer shows it when its own piece
  lists the author.
* `imported_ink_shown_iff` — what a newest import brings is shown exactly when the author was listed
  on the receiving device before, or the piece was new to it.
-/

namespace Duet

open Lib Effect

variable {sha256 : Content → String} {env : Env} {archive : Archive} {manifest : ReviewManifest}
  {bundle : Option Archive} {d d' : Device}

/-- With the piece open, the score view has a layer of `ownerId` with exactly these strokes. -/
def Device.ShowsInk (d : Device) (state : ScoreState) (pieceId ownerId : String)
    (strokes : List InkStroke) : Prop :=
  ∃ layers, d.scoreLayers state pieceId = some layers ∧
    ∃ layer ∈ layers, layer.ownerId = ownerId ∧ layer.strokes = strokes

theorem Device.showsInk_iff {state : ScoreState} {pieceId : String} {layer : InkLayer}
    (h : (d.annotationsFor pieceId).layersOf layer.ownerId = [layer]) :
    d.ShowsInk state pieceId layer.ownerId layer.strokes ↔
      ∃ piece, d.findPiece pieceId = some piece ∧ layer.ownerId ∈ piece.participantIds := by
  have hstrokes : strokesForOwner (d.annotationsFor pieceId).withoutTombstones layer.ownerId =
      layer.strokes := strokesForOwner_of_layersOf h
  constructor
  · intro ⟨layers, hlayers, hshown⟩
    obtain ⟨piece, hpiece, rfl⟩ := Option.map_eq_some_iff.mp hlayers
    exact ⟨piece, hpiece, (exists_mem_projectLayers_iff.mp hshown).1⟩
  · intro ⟨piece, hpiece, hmem⟩
    refine ⟨_, Option.map_eq_some_iff.mpr ⟨piece, hpiece, rfl⟩, ?_⟩
    exact exists_mem_projectLayers_iff.mpr ⟨hmem, hstrokes⟩

/-- The piece of a bundle that has been applied, as the device holds it afterwards. -/
theorem Resolves.findPiece {piece : Piece} {d₁ : Device}
    (h : Resolves sha256 env archive manifest d piece d₁) :
    d₁.findPiece manifest.pieceId = some piece ∧
      (d.findPiece manifest.pieceId = none → piece.ownerId = manifest.authorId) := by
  obtain ⟨hheld, -, rfl⟩ | ⟨hnone, hpiece, files, rfl⟩ := h
  · exact ⟨hheld, fun hnone => by simp [hnone] at hheld⟩
  · have hregistered : piece.id = manifest.pieceId ∧ piece.ownerId = manifest.authorId := by
      simp only [registeredPiece?, Option.bind_eq_bind, Option.bind_eq_some_iff] at hpiece
      obtain ⟨pdfFilename, -, content, -, hpiece⟩ := hpiece
      split_ifs at hpiece
      obtain rfl := Option.some.inj hpiece
      exact ⟨rfl, rfl⟩
    refine ⟨?_, fun _ => hregistered.2⟩
    change (d.pieces ++ [piece]).find? _ = some piece
    rw [List.find?_append, show d.pieces.find? _ = none from hnone]
    simp [hregistered.1]

/-- What a newest import brings is shown exactly when the piece is new to the device, or the
device's own piece lists the author among its participants. -/
theorem imported_ink_shown_iff {state : ScoreState} {summary : ReviewBundleSummary}
    (hopen : opened? env bundle = some (archive, manifest)) (hnewest : ¬manifest.StaleOn d)
    (h : (importBundle sha256 env bundle).exec d = (.ok summary, d')) :
    d'.ShowsInk state manifest.pieceId manifest.authorId manifest.strokes ↔
      ∀ piece, d.findPiece manifest.pieceId = some piece →
        manifest.authorId ∈ piece.participantIds := by
  obtain ⟨archive', manifest', piece, d₁, hopen', hresolve, hcase⟩ := importBundle_ok h
  obtain ⟨rfl, rfl⟩ := Prod.mk.inj (Option.some.inj (hopen.symm.trans hopen'))
  obtain ⟨-, happlied, -⟩ := hresolve.keeps
  obtain ⟨hfind, howner⟩ := hresolve.findPiece
  obtain ⟨hstale, -⟩ | ⟨-, -, files, rfl⟩ := hcase
  · rw [ReviewManifest.StaleOn, Device.lastAppliedAt, happlied] at hstale
    exact absurd hstale hnewest
  let layer : InkLayer :=
    ⟨manifest.authorId, roleOf piece manifest.authorId, manifest.strokes, none⟩
  have hlayer : ((d₁.imported env archive manifest piece files).annotationsFor
      manifest.pieceId).layersOf layer.ownerId = [layer] := by
    rw [annotationsFor_imported, if_pos rfl]
    exact PieceAnnotations.layersOf_replaceSlice_self
  have hshows := @Device.showsInk_iff _ state _ _ hlayer
  rw [Device.findPiece, pieces_imported] at hshows
  change _ ↔ ∃ held, d₁.findPiece manifest.pieceId = some held ∧ _ at hshows
  refine hshows.trans ?_
  simp only [hfind, Option.some.injEq, exists_eq_left']
  obtain ⟨hheld, -, rfl⟩ | ⟨hnone, -⟩ := hresolve
  · simp [hheld, layer]
  · simp [hnone, layer, Piece.participantIds, howner hnone]

/-! ## A bundle of another collaborator -/

namespace Network

/-- `bob`'s and `carol`'s devices once each has imported the sonata from `ann`. -/
def receivedFromAnn (user : String) : Device :=
  ((importBundle (fun _ => "sum") (Env.quiet user noon) (some annsArchive)).exec Device.fresh).2

/-- A stroke of `carol`'s. -/
def carolsStroke : InkStroke := ⟨"s", "carol", 0, "p1", []⟩

/-- What `carol` exports once she has drawn it. -/
def carolsArchive : Archive :=
  let drawn := ((addStroke (Env.quiet "carol" noon) annsPiece.id carolsStroke).exec
    (receivedFromAnn "carol")).2
  match ((exportBundle (Env.quiet "carol" noon) annsPiece.id none).exec drawn).1 with
  | .ok bundle => bundle.archive
  | .error _ => []

/-- `carol`'s bundle as it is read. -/
def carolsManifest : ReviewManifest :=
  ⟨1, annsPiece.id, "Sonata", "carol", none, 43200000, "sum", some "piece_43200000000_0.pdf",
    [carolsStroke], []⟩

def bobsView : ScoreState := ⟨"bob", [], none⟩

theorem opened_carolsArchive :
    opened? (Env.quiet "bob" noon) (some carolsArchive) = some (carolsArchive, carolsManifest) := by
  decide +kernel

/-- On a device without the sonata the bundle's ink is shown. -/
theorem imported_ink_shown_iff_fresh :
    ∃ summary d', (importBundle (fun _ => "sum") (Env.quiet "bob" noon)
        (some carolsArchive)).exec Device.fresh = (.ok summary, d') ∧
      (d'.ShowsInk bobsView annsPiece.id "carol" [carolsStroke] ↔
        ∀ piece, Device.fresh.findPiece annsPiece.id = some piece →
          "carol" ∈ piece.participantIds) := by
  have hok : ((importBundle (fun _ => "sum") (Env.quiet "bob" noon) (some carolsArchive)).exec
      Device.fresh).1.toOption.isSome = true := by decide +kernel
  have hnewest : ¬carolsManifest.StaleOn Device.fresh := by decide +kernel
  have hexec := Prod.ext (eq_ok_get hok) rfl
  exact ⟨_, _, hexec, imported_ink_shown_iff opened_carolsArchive hnewest hexec⟩

/-- `carol` participates in the sonata on her own device, but `bob`'s device, which has the piece
from `ann`, lists only `ann` and `bob`: her ink is imported and not shown. -/
theorem carols_ink_not_shown :
    ((receivedFromAnn "carol").findPiece annsPiece.id).any (·.isParticipant "carol") = true ∧
      opened? (Env.quiet "bob" noon) (some carolsArchive) = some (carolsArchive, carolsManifest) ∧
      ¬carolsManifest.StaleOn (receivedFromAnn "bob") ∧
      ∃ summary d', (importBundle (fun _ => "sum") (Env.quiet "bob" noon)
          (some carolsArchive)).exec (receivedFromAnn "bob") = (.ok summary, d') ∧
        ¬d'.ShowsInk bobsView annsPiece.id carolsManifest.authorId carolsManifest.strokes := by
  refine ⟨by decide +kernel, opened_carolsArchive, by decide +kernel, ?_⟩
  have hruns : (let outcome := (importBundle (fun _ => "sum") (Env.quiet "bob" noon)
        (some carolsArchive)).exec (receivedFromAnn "bob")
      outcome.1.toOption.isSome && (outcome.2.findPiece annsPiece.id).any fun piece =>
        !piece.isParticipant "carol") = true := by decide +kernel
  generalize (importBundle (fun _ => "sum") (Env.quiet "bob" noon) (some carolsArchive)).exec
    (receivedFromAnn "bob") = outcome at hruns ⊢
  obtain ⟨hok, hpiece⟩ := Bool.and_eq_true_iff.mp hruns
  obtain ⟨piece, hfind, hunlisted⟩ := (Option.any_eq_true _ _).mp hpiece
  refine ⟨_, _, Prod.ext (eq_ok_get hok) rfl, ?_⟩
  intro ⟨layers, hlayers, hshown⟩
  rw [Device.scoreLayers, hfind, Option.map_some, Option.some.injEq] at hlayers
  rw [← hlayers, exists_mem_projectLayers_iff] at hshown
  have hlisted : piece.isParticipant "carol" = true := Piece.isParticipant_iff.mpr hshown.1
  simp [hlisted] at hunlisted

end Network

end Duet
