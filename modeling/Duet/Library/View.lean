import Duet.Library.State
import Duet.Lib.Sorting
import Duet.Lib.Text
import Mathlib.Data.List.Nodup

/-!
# The gallery

What `LibraryState` shows of the pieces under a filter, a search and an order.

## Main definitions

* `LibrarySort.compare` — the orders.
* `LibraryState.visiblePieces`, `LibraryState.searchResults` — what is shown.

## Main results

* `LibraryState.visiblePieces_eq_iff` — which pieces are shown and in which order, whatever the sort
  does with pieces that compare equal, and however the snapshot was ordered.
-/

namespace Duet

open Lib

inductive LibraryFilter where
  | all | mine | shared | favorites
  deriving DecidableEq, Repr

inductive LibrarySort where
  | recentlyUpdated | recentlyAdded | title
  deriving DecidableEq, Repr

/-- What the gallery is asked to show. -/
structure GallerySettings where
  filter : LibraryFilter
  query : String
  sort : LibrarySort
  deriving DecidableEq, Repr

/-- Ties are broken by the ids. -/
def LibrarySort.compare (casing : Casing) : LibrarySort → Piece → Piece → Ordering
  | recentlyUpdated, a, b =>
    (Ord.compare b.updatedAt.micros a.updatedAt.micros).then (compareTo a.id b.id)
  | recentlyAdded, a, b =>
    (Ord.compare b.createdAt.micros a.createdAt.micros).then (compareTo a.id b.id)
  | title, a, b =>
    (compareTo (casing.toLowerCase a.title) (casing.toLowerCase b.title)).then (compareTo a.id b.id)

namespace LibraryState

section

variable (casing : Casing) (sorter : Sorter Piece) (settings : GallerySettings)
  (state : LibraryState)

/-- What is searched for, in lower case. -/
def normalized : String := casing.toLowerCase (trim settings.query)

/-- The query finds the piece. -/
def finds (piece : Piece) : Bool :=
  (normalized casing settings).isEmpty ||
    containsText (casing.toLowerCase piece.title) (normalized casing settings)

/-- `_search`. -/
def search (src : List Piece) : List Piece :=
  if (normalized casing settings).isEmpty then src
  else src.filter fun piece =>
    containsText (casing.toLowerCase piece.title) (normalized casing settings)

/-- `_view`. -/
def view (src : List Piece) : List Piece :=
  sorter.sort (settings.sort.compare casing) (search casing settings src)

def visibleMyPieces : List Piece := view casing sorter settings state.myPieces

def visibleSharedPieces : List Piece := view casing sorter settings state.sharedWithMe

def favoritePieces : List Piece := []

def visiblePieces : List Piece :=
  match settings.filter with
  | .all => view casing sorter settings state.pieces
  | .mine => state.visibleMyPieces casing sorter settings
  | .shared => state.visibleSharedPieces casing sorter settings
  | .favorites => favoritePieces

/-- A search goes through the whole library, whatever the filter. -/
def searchResults : List Piece := view casing sorter settings state.pieces

/-- The filter lets the piece through. -/
def passes (filter : LibraryFilter) (piece : Piece) : Bool :=
  match filter with
  | .all => true
  | .mine => piece.ownerId == state.currentUserId
  | .shared => piece.isCollaborator state.currentUserId
  | .favorites => false

end

section

variable {casing : Casing} {settings : GallerySettings} {state : LibraryState}

/-- Pieces compared one way, and by their ids where that does not tell. -/
theorem transCmp_then_id (cmp : Piece → Piece → Ordering) [Std.TransCmp cmp] :
    Std.TransCmp fun a b => (cmp a b).then (compareTo a.id b.id) :=
  have : Std.TransCmp fun a b : Piece => compareTo a.id b.id := transCmp_on Piece.id
  inferInstanceAs (Std.TransCmp (compareLex cmp fun a b => compareTo a.id b.id))

/-- The newest comes first. -/
theorem transCmp_date (date : Piece → DateTime) :
    Std.TransCmp fun a b => compare (date b).micros (date a).micros :=
  @transCmp_on Int (fun s t => compare t s) _ Piece fun piece => (date piece).micros

instance (sort : LibrarySort) : Std.TransCmp (sort.compare casing) := by
  cases sort with
  | recentlyUpdated => exact @transCmp_then_id _ (transCmp_date Piece.updatedAt)
  | recentlyAdded => exact @transCmp_then_id _ (transCmp_date Piece.createdAt)
  | title =>
    exact @transCmp_then_id _ (transCmp_on fun piece : Piece => casing.toLowerCase piece.title)

theorem id_eq_of_compare {sort : LibrarySort} {a b : Piece} (h : sort.compare casing a b = .eq) :
    a.id = b.id := by
  cases sort <;> simp_all [LibrarySort.compare, Ordering.then_eq_eq, compareTo_eq_iff]

theorem search_eq (src : List Piece) :
    search casing settings src = src.filter (finds casing settings) := by
  unfold search finds
  split_ifs with hempty <;> simp [hempty]

theorem visiblePieces_eq_view (sorter : Sorter Piece) :
    state.visiblePieces casing sorter settings =
      view casing sorter settings (state.pieces.filter (state.passes settings.filter)) := by
  unfold visiblePieces passes
  cases settings.filter with
  | all => simp
  | mine => rfl
  | shared => rfl
  | favorites =>
    have hperm := sorter.perm (settings.sort.compare casing) []
    simp [favoritePieces, view, search_eq, hperm.eq_nil]

theorem view_eq_iff {sorter : Sorter Piece} {src shown : List Piece}
    (hids : (src.map Piece.id).Nodup) : view casing sorter settings src = shown ↔
      (shown.Pairwise fun a b => settings.sort.compare casing a b = .lt) ∧
        ∀ piece, piece ∈ shown ↔ piece ∈ src ∧ finds casing settings piece = true := by
  have hfound : ((src.filter (finds casing settings)).map Piece.id).Nodup :=
    hids.sublist (List.filter_sublist.map _)
  rw [view, search_eq, sorter.sort_eq_iff (hfound.of_map _)]
  · simp only [List.mem_filter]
  · intro a ha b hb hcompare
    exact List.inj_on_of_nodup_map hfound ha hb (id_eq_of_compare hcompare)

/-- The gallery shows every piece that its filter and its query let through, once, and in the strict
order that is asked for. No sort and no order of the snapshot changes what it shows. -/
theorem visiblePieces_eq_iff (casing : Casing) (sorter : Sorter Piece) (settings : GallerySettings)
    (state : LibraryState) (hids : (state.pieces.map Piece.id).Nodup) (shown : List Piece) :
    state.visiblePieces casing sorter settings = shown ↔
      (shown.Pairwise fun a b => settings.sort.compare casing a b = .lt) ∧
        ∀ piece, piece ∈ shown ↔ piece ∈ state.pieces ∧
          state.passes settings.filter piece = true ∧ finds casing settings piece = true := by
  rw [visiblePieces_eq_view, view_eq_iff (hids.sublist (List.filter_sublist.map _))]
  simp only [List.mem_filter, and_assoc]

/-- Two sheets of one's own that were changed at the same time, and one of somebody else. -/
def threeSheets : LibraryState where
  currentUserId := "ann"
  pieces := [⟨"p2", "Sonata", "", "", "ann", none, [], .sinceEpoch 1, .sinceEpoch 3⟩,
    ⟨"p3", "Sonatina", "", "", "bob", none, [⟨"ann", none, none⟩], .sinceEpoch 1, .sinceEpoch 4⟩,
    ⟨"p1", "Two Sonatas", "", "", "ann", none, [], .sinceEpoch 2, .sinceEpoch 3⟩]
  lastOpenedAt := []

theorem visiblePieces_eq_iff_threeSheets : threeSheets.visiblePieces .ascii (.merge Piece)
    ⟨.mine, " SON ", .recentlyUpdated⟩ =
      [⟨"p1", "Two Sonatas", "", "", "ann", none, [], .sinceEpoch 2, .sinceEpoch 3⟩,
        ⟨"p2", "Sonata", "", "", "ann", none, [], .sinceEpoch 1, .sinceEpoch 3⟩] := by
  refine (visiblePieces_eq_iff .ascii (.merge Piece) ⟨.mine, " SON ", .recentlyUpdated⟩ threeSheets
    (by decide) _).mpr ⟨by decide +kernel, fun piece => ⟨fun hshown => ?_, fun hpasses => ?_⟩⟩
  · revert piece
    decide +kernel
  · obtain ⟨hpiece, hpasses⟩ := hpasses
    revert hpasses
    revert piece
    decide +kernel

end

end LibraryState

end Duet
