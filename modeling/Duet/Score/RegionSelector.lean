import Duet.Score.Practice
import Mathlib.Algebra.Order.Field.Rat
import Mathlib.Order.Interval.Set.Basic
import Mathlib.Tactic.Linarith

/-!
# `RegionSelector`

A rectangle is dragged out on a page, perhaps beyond its edges, and passed on in fractions of the
page. Each of its two corners and its two extents is clamped on its own.

## Main results

* `selects_iff` — which drags pass on the part of the page that they cover.
* `keepsWindow_of_toRegion` — whatever is passed on, the window that practises it stays on its page.
-/

namespace Duet

structure Offset where
  dx : ℚ
  dy : ℚ
  deriving DecidableEq, Repr

structure Size where
  width : ℚ
  height : ℚ
  deriving DecidableEq, Repr

structure Rect where
  left : ℚ
  top : ℚ
  right : ℚ
  bottom : ℚ
  deriving DecidableEq, Repr

namespace Rect

def fromPoints (a b : Offset) : Rect :=
  ⟨min a.dx b.dx, min a.dy b.dy, max a.dx b.dx, max a.dy b.dy⟩

def width (rect : Rect) : ℚ := rect.right - rect.left

def height (rect : Rect) : ℚ := rect.bottom - rect.top

end Rect

/-- `_RegionSelectorState`: the page, and where the drag has begun and got to. -/
structure RegionSelector where
  pageIndex : Int
  start : Option Offset
  current : Option Offset
  deriving DecidableEq, Repr

/-- What the gesture detector reports. -/
inductive PanEvent where
  | panStart (localPosition : Offset)
  | panUpdate (localPosition : Offset)
  | panEnd
  deriving DecidableEq, Repr

namespace RegionSelector

/-- `_minDragPixels`. -/
def minDragPixels : ℚ := 24

/-- `_dragRect`. -/
def dragRect (s : RegionSelector) : Option Rect := do
  let start ← s.start
  let current ← s.current
  some (Rect.fromPoints start current)

/-- `_toRegion`. -/
def toRegion (s : RegionSelector) (rect : Rect) (size : Size) : Option Region := do
  let left ← clamp (rect.left / size.width) 0 1
  let top ← clamp (rect.top / size.height) 0 1
  let width ← clamp (rect.width / size.width) 0 1
  let height ← clamp (rect.height / size.height) 0 1
  some ⟨s.pageIndex, left, top, width, height⟩

/-- `_finishDrag`: the selector, and the region of `onRegionCompleted` if it is called. -/
def finishDrag (s : RegionSelector) (size : Size) : Option (RegionSelector × Option Region) :=
  let released := { s with start := none, current := none }
  match s.dragRect with
  | none => some (released, none)
  | some rect =>
    if size.width ≤ 0 ∨ size.height ≤ 0 ∨ rect.width < minDragPixels ∨
      rect.height < minDragPixels then some (released, none)
    else (s.toRegion rect size).map fun region => (released, some region)

/-- One event on a widget of a size: the selector, and the region that is passed on to
`onRegionPreview` or `onRegionCompleted`; `none` is an `ArgumentError`. -/
def step (size : Size) (s : RegionSelector) : PanEvent → Option (RegionSelector × Option Region)
  | .panStart localPosition =>
    some ({ s with start := some localPosition, current := some localPosition }, none)
  | .panUpdate localPosition =>
    let moved := { s with current := some localPosition }
    match moved.dragRect with
    | none => some (moved, none)
    | some rect =>
      if size.width > 0 ∧ size.height > 0 then
        (moved.toRegion rect size).map fun region => (moved, some region)
      else some (moved, none)
  | .panEnd => s.finishDrag size

/-- The rectangle that has been dragged out by the time of the event. -/
def draggedAt (s : RegionSelector) : PanEvent → Option Rect
  | .panStart _ => none
  | .panUpdate localPosition => { s with current := some localPosition }.dragRect
  | .panEnd => s.dragRect

end RegionSelector

/-! ## What is meant -/

/-- The points of a region, in fractions of its page. -/
def Region.area (region : Region) : Set (ℚ × ℚ) :=
  Set.Icc (region.left, region.top) (region.left + region.width, region.top + region.height)

/-- The points of a rectangle, in fractions of a size. -/
def Rect.area (rect : Rect) (size : Size) : Set (ℚ × ℚ) :=
  Set.Icc (rect.left / size.width, rect.top / size.height)
    (rect.right / size.width, rect.bottom / size.height)

/-- The points of a page. -/
def pageArea : Set (ℚ × ℚ) := Set.Icc (0, 0) (1, 1)

structure Region.OnPage (region : Region) : Prop where
  left_nonneg : 0 ≤ region.left
  top_nonneg : 0 ≤ region.top
  right_le : region.left + region.width ≤ 1
  bottom_le : region.top + region.height ≤ 1

/-- A window on the region can be moved anywhere, and then lies on its page and is as large as it
was. -/
def Region.KeepsWindow (region : Region) : Prop :=
  ∀ (pageCount : Int) (pageIndex : Option Int) (top left : Option ℚ),
    ∃ view, (PracticeView.mk region pageCount).moveWindow pageIndex top left = some view ∧
      view.region.OnPage ∧ view.region.width = region.width ∧ view.region.height = region.height

/-- A drag along one axis does not leave the page on one side only. -/
def WithinOrAcross (first last extent : ℚ) : Prop :=
  (0 ≤ first ∧ last ≤ extent) ∨ (first ≤ 0 ∧ extent ≤ last)

instance (first last extent : ℚ) : Decidable (WithinOrAcross first last extent) :=
  inferInstanceAs (Decidable (_ ∨ _))

namespace RegionSelector

variable {s t : RegionSelector} {size : Size} {event : PanEvent} {rect : Rect} {region : Region}

theorem toRegion_eq (s : RegionSelector) (rect : Rect) (size : Size) :
    s.toRegion rect size = some ⟨s.pageIndex, max 0 (min 1 (rect.left / size.width)),
      max 0 (min 1 (rect.top / size.height)), max 0 (min 1 (rect.width / size.width)),
      max 0 (min 1 (rect.height / size.height))⟩ := by
  have hlimits : ¬(1 : ℚ) < 0 := by norm_num
  simp [toRegion, clamp, hlimits]

/-- What is passed on is the region of the rectangle. -/
theorem toRegion_of_step (hdragged : s.draggedAt event = some rect)
    (hstep : s.step size event = some (t, some region)) : s.toRegion rect size = some region := by
  cases event with
  | panStart => cases hdragged
  | panUpdate localPosition =>
    change RegionSelector.dragRect _ = _ at hdragged
    simp only [step, hdragged] at hstep
    split_ifs at hstep
    · obtain ⟨region', hregion, heq⟩ := Option.map_eq_some_iff.mp hstep
      obtain rfl := Option.some.inj (Prod.mk.inj heq).2
      exact hregion
    · simp at hstep
  | panEnd =>
    change RegionSelector.dragRect _ = _ at hdragged
    simp only [step, finishDrag, hdragged] at hstep
    split_ifs at hstep
    · simp at hstep
    · obtain ⟨region', hregion, heq⟩ := Option.map_eq_some_iff.mp hstep
      obtain rfl := Option.some.inj (Prod.mk.inj heq).2
      exact hregion

theorem ordered_of_dragRect (hdragged : s.dragRect = some rect) :
    rect.left ≤ rect.right ∧ rect.top ≤ rect.bottom := by
  simp only [dragRect, Option.bind_eq_bind, Option.bind_eq_some_iff, Option.some.injEq] at hdragged
  obtain ⟨start, -, current, -, rfl⟩ := hdragged
  exact ⟨min_le_max, min_le_max⟩

theorem ordered_of_draggedAt (hdragged : s.draggedAt event = some rect) :
    rect.left ≤ rect.right ∧ rect.top ≤ rect.bottom := by
  cases event with
  | panStart => cases hdragged
  | panUpdate | panEnd => exact ordered_of_dragRect hdragged

/-! ## Which drags are selected -/

/-- One axis: the clamped edge and extent are those of the intersection with the page unless the
drag leaves it on one side only. -/
theorem clamped_iff {first last : ℚ} (h : first ≤ last) :
    (max 0 (min 1 first) = max first 0 ∧
      max 0 (min 1 first) + max 0 (min 1 (last - first)) = min last 1) ↔
        WithinOrAcross first last 1 := by
  unfold WithinOrAcross
  grind

theorem withinOrAcross_div {first last extent : ℚ} (h : 0 < extent) :
    WithinOrAcross (first / extent) (last / extent) 1 ↔ WithinOrAcross first last extent := by
  unfold WithinOrAcross
  rw [le_div_iff₀ h, div_le_iff₀ h, div_le_iff₀ h, le_div_iff₀ h, zero_mul, one_mul]

/-- The region of a rectangle covers as much of the page as the rectangle does. -/
theorem area_toRegion_iff (hwidth : 0 < size.width) (hheight : 0 < size.height)
    (hordered : rect.left ≤ rect.right ∧ rect.top ≤ rect.bottom)
    (hregion : s.toRegion rect size = some region) :
    region.area = rect.area size ∩ pageArea ↔
      WithinOrAcross rect.left rect.right size.width ∧
        WithinOrAcross rect.top rect.bottom size.height := by
  rw [toRegion_eq, Option.some.injEq] at hregion
  subst hregion
  have hx := clamped_iff (div_le_div_of_nonneg_right hordered.1 hwidth.le)
  have hy := clamped_iff (div_le_div_of_nonneg_right hordered.2 hheight.le)
  rw [withinOrAcross_div hwidth, ← sub_div] at hx
  rw [withinOrAcross_div hheight, ← sub_div] at hy
  rw [Region.area, Rect.area, pageArea, Set.Icc_inter_Icc, Set.Icc_eq_Icc_iff]
  · simp only [Prod.mk_sup_mk, Prod.mk_inf_mk, Prod.mk.injEq]
    rw [← hx, ← hy, Rect.width, Rect.height]
    tauto
  · refine Prod.mk_le_mk.mpr ⟨?_, ?_⟩ <;> simp

/-! ## What becomes of the region -/

/-- No region is wider or higher than its page. -/
theorem extent_of_toRegion (hregion : s.toRegion rect size = some region) :
    (0 ≤ region.width ∧ region.width ≤ 1) ∧ 0 ≤ region.height ∧ region.height ≤ 1 := by
  rw [toRegion_eq, Option.some.injEq] at hregion
  subst hregion
  simp

/-- Whatever is passed on, a window on it stays on its page. -/
theorem keepsWindow_of_toRegion (hregion : s.toRegion rect size = some region) :
    region.KeepsWindow := by
  obtain ⟨⟨hwidth, hwide⟩, hheight, hhigh⟩ := extent_of_toRegion hregion
  intro pageCount pageIndex top left
  have hx : ¬1 - region.width < 0 := by linarith
  have hy : ¬1 - region.height < 0 := by linarith
  let moved : Region := ⟨pageIndex.getD region.pageIndex,
    max 0 (min (1 - region.width) (left.getD region.left)),
    max 0 (min (1 - region.height) (top.getD region.top)), region.width, region.height⟩
  have hmoved : (PracticeView.mk region pageCount).moveWindow pageIndex top left =
      some ⟨moved, pageCount⟩ := by
    simp [moved, PracticeView.moveWindow, clamp, hx, hy]
  refine ⟨_, hmoved, ⟨le_max_left _ _, le_max_left _ _, ?_, ?_⟩, rfl, rfl⟩
  · have hleft : moved.left ≤ 1 - region.width := max_le (by linarith) (min_le_left _ _)
    linarith
  · have htop : moved.top ≤ 1 - region.height := max_le (by linarith) (min_le_left _ _)
    linarith

/-- The region that a drag passes on lies on the page and covers what the drag covers of it, and the
window on it stays on the page, exactly when the drag leaves the page on neither or on both sides
of each axis. -/
theorem selects_iff (hwidth : 0 < size.width) (hheight : 0 < size.height)
    (hdragged : s.draggedAt event = some rect)
    (hstep : s.step size event = some (t, some region)) :
    (region.OnPage ∧ region.area = rect.area size ∩ pageArea ∧ region.KeepsWindow) ↔
      WithinOrAcross rect.left rect.right size.width ∧
        WithinOrAcross rect.top rect.bottom size.height := by
  have hregion := toRegion_of_step hdragged hstep
  have harea := area_toRegion_iff hwidth hheight (ordered_of_draggedAt hdragged) hregion
  rw [← harea]
  refine ⟨fun h => h.2.1, fun h => ⟨?_, h, keepsWindow_of_toRegion hregion⟩⟩
  -- the corners of the region are points of the page
  obtain ⟨⟨hwide, -⟩, hhigh, -⟩ := extent_of_toRegion hregion
  have hfirst : (region.left, region.top) ∈ pageArea :=
    (h.subset (Set.left_mem_Icc.mpr (Prod.mk_le_mk.mpr ⟨by linarith, by linarith⟩))).2
  have hlast : (region.left + region.width, region.top + region.height) ∈ pageArea :=
    (h.subset (Set.right_mem_Icc.mpr (Prod.mk_le_mk.mpr ⟨by linarith, by linarith⟩))).2
  exact ⟨hfirst.1.1, hfirst.1.2, hlast.2.1, hlast.2.2⟩

/-- A drag inside a page of a hundred by a hundred. -/
theorem selects_iff_inside :
    let region : Region := ⟨0, 1 / 10, 1 / 5, 2 / 5, 3 / 10⟩
    region.OnPage ∧ region.area = Rect.area ⟨10, 20, 50, 50⟩ ⟨100, 100⟩ ∩ pageArea ∧
      region.KeepsWindow := by
  have hwithin : WithinOrAcross (10 : ℚ) 50 100 ∧ WithinOrAcross (20 : ℚ) 50 100 := by
    decide +kernel
  have hstep : step ⟨100, 100⟩ ⟨0, some ⟨50, 20⟩, some ⟨10, 50⟩⟩ .panEnd =
      some (⟨0, none, none⟩, some ⟨0, 1 / 10, 1 / 5, 2 / 5, 3 / 10⟩) := by decide +kernel
  exact (selects_iff (by norm_num) (by norm_num) (by decide +kernel) hstep).mpr hwithin

/-- A drag from the middle of the page over its right edge passes on a region that ends as far
beyond the edge as the drag does. -/
theorem not_selects :
    ¬∀ (s t : RegionSelector) (size : Size) (event : PanEvent) (rect : Rect) (region : Region),
      0 < size.width → 0 < size.height → s.draggedAt event = some rect →
      s.step size event = some (t, some region) →
      region.OnPage ∧ region.area = rect.area size ∩ pageArea ∧ region.KeepsWindow := by
  intro h
  obtain ⟨hpage, -⟩ := h ⟨0, some ⟨50, 10⟩, some ⟨150, 60⟩⟩ ⟨0, none, none⟩ ⟨100, 100⟩ .panEnd
    ⟨50, 10, 150, 60⟩ ⟨0, 1 / 2, 1 / 10, 1, 1 / 2⟩ (by norm_num) (by norm_num) (by decide +kernel)
    (by decide +kernel)
  exact absurd hpage.right_le (by norm_num)

end RegionSelector

end Duet
