import Duet.Domain.Annotation
import Mathlib.Algebra.Order.Archimedean.Basic
import Mathlib.Logic.Relation
import Mathlib.Tactic.Linarith
import Mathlib.Tactic.Push

/-!
# `PracticeView`

A window of a page, as wide and as high as the passage that is practised, that two steppers move by
its own height, on to the next page and back to the one before. Positions on a page are fractions of
it.

## Main results

* `advances_iff` — which windows move whenever a stepper is enabled.
* `coversScore_iff` — for which heights stepping forward shows the whole score.
* `keepsAdvancing_iff` — from which windows no tap on an enabled stepper is lost, however many there
  are.
* `practises_iff` — both: a whole number of windows makes up a page, up to the tolerance, and so it
  does what is left of the first and of the last page.
-/

namespace Duet

/-- `_edgeTolerance`. -/
def edgeTolerance : ℚ := 1 / 1000

/-- `num.clamp`, an `ArgumentError` when the limits are in the wrong order. -/
def clamp (x lowerLimit upperLimit : ℚ) : Option ℚ :=
  if upperLimit < lowerLimit then none else some (max lowerLimit (min upperLimit x))

/-- The window, and the number of pages. -/
structure PracticeView where
  region : Region
  pageCount : Int
  deriving DecidableEq, Repr

namespace PracticeView

def canStepBack (v : PracticeView) : Bool :=
  v.region.top > edgeTolerance || v.region.pageIndex > 0

def canStepForward (v : PracticeView) : Bool :=
  v.region.top + v.region.height < 1 - edgeTolerance || v.region.pageIndex < v.pageCount - 1

/-- `_moveWindow`. -/
def moveWindow (v : PracticeView) (pageIndex : Option Int) (top left : Option ℚ) :
    Option PracticeView := do
  let left ← clamp (left.getD v.region.left) 0 (1 - v.region.width)
  let top ← clamp (top.getD v.region.top) 0 (1 - v.region.height)
  some { v with region :=
    ⟨pageIndex.getD v.region.pageIndex, left, top, v.region.width, v.region.height⟩ }

/-- `_step`: one window up (`-1`) or down (`1`), or to the page before or after. -/
def step (v : PracticeView) (direction : Int) : Option PracticeView :=
  let newTop := v.region.top + direction * v.region.height
  if newTop > -edgeTolerance ∧ newTop + v.region.height < 1 + edgeTolerance then
    v.moveWindow none (some newTop) none
  else if direction > 0 ∧ v.region.pageIndex < v.pageCount - 1 then
    v.moveWindow (some (v.region.pageIndex + 1)) (some 0) none
  else if direction < 0 ∧ v.region.pageIndex > 0 then
    v.moveWindow (some (v.region.pageIndex - 1)) (some (1 - v.region.height)) none
  else some v

/-- `_moveWindowTo`: the window is centered on a point of its page. -/
def moveWindowTo (v : PracticeView) (dx dy : ℚ) : Option PracticeView :=
  v.moveWindow none (some (dy - v.region.height / 2)) (some (dx - v.region.width / 2))

/-- The window is on a page of the score. -/
structure OnScore (v : PracticeView) : Prop where
  page_nonneg : 0 ≤ v.region.pageIndex
  page_lt : v.region.pageIndex < v.pageCount
  width_le : v.region.width ≤ 1
  height_pos : 0 < v.region.height
  top_nonneg : 0 ≤ v.region.top
  bottom_le : v.region.top ≤ 1 - v.region.height

/-- The window at another place of the score. -/
def windowAt (v : PracticeView) (pageIndex : Int) (top : ℚ) : PracticeView :=
  { v with region := ⟨pageIndex, max 0 (min (1 - v.region.width) v.region.left), top,
      v.region.width, v.region.height⟩ }

section

variable {v w : PracticeView} {pageIndex : Int} {top : ℚ}

@[simp] theorem pageIndex_windowAt : (v.windowAt pageIndex top).region.pageIndex = pageIndex := rfl
@[simp] theorem top_windowAt : (v.windowAt pageIndex top).region.top = top := rfl
@[simp] theorem height_windowAt : (v.windowAt pageIndex top).region.height = v.region.height := rfl
@[simp] theorem pageCount_windowAt : (v.windowAt pageIndex top).pageCount = v.pageCount := rfl

theorem OnScore.windowAt (h : v.OnScore) (hpage : 0 ≤ pageIndex) (hcount : pageIndex < v.pageCount)
    (htop : 0 ≤ top) (hbottom : top ≤ 1 - v.region.height) : (v.windowAt pageIndex top).OnScore where
  page_nonneg := hpage
  page_lt := hcount
  width_le := h.width_le
  height_pos := h.height_pos
  top_nonneg := htop
  bottom_le := hbottom

/-- A window on the score can be moved, and stays on its page. -/
theorem OnScore.moveWindow (h : v.OnScore) (pageIndex : Option Int) (top : ℚ) :
    v.moveWindow pageIndex (some top) none =
      some (v.windowAt (pageIndex.getD v.region.pageIndex)
        (max 0 (min (1 - v.region.height) top))) := by
  have hheight : ¬1 - v.region.height < 0 := by linarith [h.top_nonneg, h.bottom_le]
  have hwidth : ¬1 - v.region.width < 0 := by linarith [h.width_le]
  simp [PracticeView.moveWindow, clamp, hheight, hwidth, PracticeView.windowAt]

/-- A step down the page, while a whole window is left of it, up to the tolerance. -/
theorem OnScore.step_down (h : v.OnScore)
    (hfits : v.region.top + 2 * v.region.height < 1 + edgeTolerance) :
    v.step 1 = some (v.windowAt v.region.pageIndex
      (min (1 - v.region.height) (v.region.top + v.region.height))) := by
  have htolerance : 0 < edgeTolerance := by norm_num [edgeTolerance]
  have hnonneg : 0 ≤ min (1 - v.region.height) (v.region.top + v.region.height) :=
    le_min (by linarith [h.top_nonneg, h.bottom_le]) (by linarith [h.top_nonneg, h.height_pos])
  simp only [step, Int.cast_one, one_mul]
  rw [if_pos ⟨by linarith [h.top_nonneg, h.height_pos], by linarith⟩, h.moveWindow,
    max_eq_right hnonneg]
  rfl

/-- A step over the end of the page. -/
theorem OnScore.step_over (h : v.OnScore)
    (hfits : 1 + edgeTolerance ≤ v.region.top + 2 * v.region.height) :
    v.step 1 = some (if v.region.pageIndex < v.pageCount - 1
      then v.windowAt (v.region.pageIndex + 1) 0 else v) := by
  have hheight : 0 ≤ 1 - v.region.height := by linarith [h.top_nonneg, h.bottom_le]
  simp only [step, Int.cast_one, one_mul]
  rw [if_neg (by rintro ⟨-, hlt⟩; linarith)]
  by_cases hlast : v.region.pageIndex < v.pageCount - 1
  · rw [if_pos ⟨by decide, hlast⟩, if_pos hlast, h.moveWindow, min_eq_right hheight, max_self]
    rfl
  · rw [if_neg (by tauto), if_neg (by omega), if_neg hlast]

/-- A step up the page. -/
theorem OnScore.step_up (h : v.OnScore)
    (hfits : -edgeTolerance < v.region.top - v.region.height) :
    v.step (-1) = some (v.windowAt v.region.pageIndex
      (max 0 (v.region.top - v.region.height))) := by
  have htolerance : 0 < edgeTolerance := by norm_num [edgeTolerance]
  have hle : v.region.top - v.region.height ≤ 1 - v.region.height := by
    linarith [h.bottom_le, h.height_pos]
  simp only [step, Int.cast_neg, Int.cast_one, neg_one_mul, ← sub_eq_add_neg]
  rw [if_pos ⟨hfits, by linarith [h.bottom_le, h.height_pos]⟩, h.moveWindow, min_eq_right hle]
  rfl

/-- A step over the beginning of the page. -/
theorem OnScore.step_back (h : v.OnScore)
    (hfits : v.region.top - v.region.height ≤ -edgeTolerance) :
    v.step (-1) = some (if 0 < v.region.pageIndex
      then v.windowAt (v.region.pageIndex - 1) (1 - v.region.height) else v) := by
  have hheight : 0 ≤ 1 - v.region.height := by linarith [h.top_nonneg, h.bottom_le]
  simp only [step, Int.cast_neg, Int.cast_one, neg_one_mul, ← sub_eq_add_neg]
  rw [if_neg (by rintro ⟨hlt, -⟩; linarith), if_neg (by omega)]
  by_cases hfirst : 0 < v.region.pageIndex
  · rw [if_pos ⟨by decide, hfirst⟩, if_pos hfirst, h.moveWindow, min_self, max_eq_right hheight]
    rfl
  · rw [if_neg (by tauto), if_neg hfirst]

end

/-- The steppers leave the window on the score. -/
theorem OnScore.step {v w : PracticeView} {direction : Int} (h : v.OnScore)
    (hdirection : direction = 1 ∨ direction = -1) (hstep : v.step direction = some w) :
    w.OnScore := by
  have hnonneg := h.page_nonneg
  have hpage := h.page_lt
  have hheight : 0 ≤ 1 - v.region.height := by linarith [h.top_nonneg, h.bottom_le]
  obtain rfl | rfl := hdirection
  · obtain hfits | hfits := lt_or_ge (v.region.top + 2 * v.region.height) (1 + edgeTolerance)
    · obtain rfl := Option.some.inj ((h.step_down hfits).symm.trans hstep)
      exact h.windowAt hnonneg hpage
        (le_min hheight (by linarith [h.top_nonneg, h.height_pos])) (min_le_left _ _)
    · have hover := (h.step_over hfits).symm.trans hstep
      split_ifs at hover with hlast
      · obtain rfl := Option.some.inj hover
        exact h.windowAt (by omega) (by omega) le_rfl hheight
      · obtain rfl := Option.some.inj hover
        exact h
  · obtain hfits | hfits := lt_or_ge (-edgeTolerance) (v.region.top - v.region.height)
    · obtain rfl := Option.some.inj ((h.step_up hfits).symm.trans hstep)
      exact h.windowAt hnonneg hpage (le_max_left _ _)
        (max_le hheight (by linarith [h.bottom_le, h.height_pos]))
    · have hback := (h.step_back hfits).symm.trans hstep
      split_ifs at hback with hfirst
      · obtain rfl := Option.some.inj hback
        exact h.windowAt (by omega) (by omega) hheight le_rfl
      · obtain rfl := Option.some.inj hback
        exact h

/-- So does the mini-map. -/
theorem OnScore.moveWindowTo {v : PracticeView} (h : v.OnScore) (dx dy : ℚ) :
    ∃ w, v.moveWindowTo dx dy = some w ∧ w.OnScore := by
  have hheight : 0 ≤ 1 - v.region.height := by linarith [h.top_nonneg, h.bottom_le]
  have hwidth : 0 ≤ 1 - v.region.width := by linarith [h.width_le]
  have hmoved : v.moveWindowTo dx dy = some { v with region :=
      ⟨v.region.pageIndex, max 0 (min (1 - v.region.width) (dx - v.region.width / 2)),
        max 0 (min (1 - v.region.height) (dy - v.region.height / 2)), v.region.width,
        v.region.height⟩ } := by
    simp [PracticeView.moveWindowTo, PracticeView.moveWindow, clamp, not_lt.mpr hheight,
      not_lt.mpr hwidth]
  exact ⟨_, hmoved, h.page_nonneg, h.page_lt, h.width_le, h.height_pos, le_max_left _ _,
    max_le hheight (min_le_left _ _)⟩

/-! ## Progress -/

/-- The reading order. -/
def Before (a b : Region) : Prop :=
  a.pageIndex < b.pageIndex ∨ a.pageIndex = b.pageIndex ∧ a.top < b.top

/-- Whenever a stepper is enabled, it moves the window in its direction. -/
def Advances (v : PracticeView) : Prop :=
  (v.canStepForward = true → ∃ w, v.step 1 = some w ∧ Before v.region w.region) ∧
    (v.canStepBack = true → ∃ w, v.step (-1) = some w ∧ Before w.region v.region)

/-- On the last page, something is left below the window, but no whole window. -/
def CutShortBelow (v : PracticeView) : Prop :=
  v.region.pageIndex = v.pageCount - 1 ∧
    v.region.top + v.region.height < 1 - edgeTolerance ∧
      1 + edgeTolerance ≤ v.region.top + 2 * v.region.height

/-- On the first page, something is left above the window, but no whole window. -/
def CutShortAbove (v : PracticeView) : Prop :=
  v.region.pageIndex = 0 ∧ edgeTolerance < v.region.top ∧
    v.region.top - v.region.height ≤ -edgeTolerance

/-- There is one page, or the window is not lower than the tolerance. -/
def Rolls (v : PracticeView) : Prop := v.pageCount = 1 ∨ edgeTolerance ≤ v.region.height

section

variable {v w : PracticeView}

theorem canStepForward_iff : v.canStepForward = true ↔
    v.region.top + v.region.height < 1 - edgeTolerance ∨ v.region.pageIndex < v.pageCount - 1 := by
  simp [canStepForward]

theorem canStepBack_iff : v.canStepBack = true ↔
    edgeTolerance < v.region.top ∨ 0 < v.region.pageIndex := by
  simp [canStepBack]

theorem forward_iff (h : v.OnScore) (hrolls : v.Rolls) :
    (v.canStepForward = true → ∃ w, v.step 1 = some w ∧ Before v.region w.region) ↔
      ¬v.CutShortBelow := by
  have htolerance : 0 < edgeTolerance := by norm_num [edgeTolerance]
  have hbottom := h.bottom_le
  have hpositive := h.height_pos
  have hpage := h.page_lt
  have hfirst := h.page_nonneg
  rw [canStepForward_iff]
  obtain hfits | hfits := lt_or_ge (v.region.top + 2 * v.region.height) (1 + edgeTolerance)
  · refine iff_of_true (fun henabled => ⟨_, h.step_down hfits, .inr ⟨rfl, ?_⟩⟩) ?_
    · refine lt_min (lt_of_le_of_ne hbottom fun heq => ?_) (by linarith)
      obtain hbelow | hmore := henabled
      · linarith
      · obtain hone | hhigh := hrolls
        · omega
        · linarith
    · rintro ⟨-, -, hle⟩
      linarith
  · rw [h.step_over hfits]
    by_cases hlast : v.region.pageIndex < v.pageCount - 1
    · rw [if_pos hlast]
      refine iff_of_true (fun _ => ⟨_, rfl, .inl (by simp)⟩) ?_
      rintro ⟨heq, -⟩
      omega
    · rw [if_neg hlast]
      constructor
      · rintro hmoves ⟨-, hbelow, -⟩
        obtain ⟨w, hw, hbefore⟩ := hmoves (.inl hbelow)
        obtain rfl := Option.some.inj hw
        obtain hlt | ⟨-, hlt⟩ := hbefore <;> exact lt_irrefl _ hlt
      · rintro hnot (hbelow | hmore)
        · exact absurd ⟨by omega, hbelow, hfits⟩ hnot
        · exact absurd hmore hlast

theorem back_iff (h : v.OnScore) (hrolls : v.Rolls) :
    (v.canStepBack = true → ∃ w, v.step (-1) = some w ∧ Before w.region v.region) ↔
      ¬v.CutShortAbove := by
  have htolerance : 0 < edgeTolerance := by norm_num [edgeTolerance]
  have htop := h.top_nonneg
  have hpositive := h.height_pos
  have hpage := h.page_lt
  have hfirst := h.page_nonneg
  rw [canStepBack_iff]
  obtain hfits | hfits := lt_or_ge (-edgeTolerance) (v.region.top - v.region.height)
  · refine iff_of_true (fun henabled => ⟨_, h.step_up hfits, .inr ⟨rfl, ?_⟩⟩) ?_
    · refine max_lt (lt_of_le_of_ne htop fun heq => ?_) (by linarith)
      obtain habove | hmore := henabled
      · linarith
      · obtain hone | hhigh := hrolls
        · omega
        · linarith
    · rintro ⟨-, -, hle⟩
      linarith
  · rw [h.step_back hfits]
    by_cases hmore : 0 < v.region.pageIndex
    · rw [if_pos hmore]
      refine iff_of_true (fun _ => ⟨_, rfl, .inl (by simp)⟩) ?_
      rintro ⟨heq, -⟩
      omega
    · rw [if_neg hmore]
      constructor
      · rintro hmoves ⟨-, habove, -⟩
        obtain ⟨w, hw, hbefore⟩ := hmoves (.inl habove)
        obtain rfl := Option.some.inj hw
        obtain hlt | ⟨-, hlt⟩ := hbefore <;> exact lt_irrefl _ hlt
      · rintro hnot (habove | hpage')
        · exact absurd ⟨by omega, habove, hfits⟩ hnot
        · exact absurd hpage' hmore

theorem advances_iff (h : v.OnScore) (hrolls : v.Rolls) :
    v.Advances ↔ ¬v.CutShortBelow ∧ ¬v.CutShortAbove :=
  and_congr (forward_iff h hrolls) (back_iff h hrolls)

end

/-! ## Coverage -/

/-- The windows from one on, stepping forward until the stepper is disabled. -/
inductive StepsForward : PracticeView → List PracticeView → Prop where
  | disabled {v} : v.canStepForward = false → StepsForward v [v]
  | step {v w ws} : v.canStepForward = true → v.step 1 = some w → StepsForward w ws →
    StepsForward v (v :: ws)

/-- A position of a page is in one of the windows, up to the tolerance. -/
def Shows (ws : List PracticeView) (pageIndex : Int) (y : ℚ) : Prop :=
  ∃ w ∈ ws, w.region.pageIndex = pageIndex ∧ w.region.top - edgeTolerance ≤ y ∧
    y ≤ w.region.top + w.region.height + edgeTolerance

/-- The window is at the bottom of the last page, up to the tolerance. -/
def AtBottom (v : PracticeView) : Prop :=
  v.region.pageIndex = v.pageCount - 1 ∧
    1 - edgeTolerance ≤ v.region.top + v.region.height ∧ v.region.top + v.region.height ≤ 1

/-- Stepping forward from the top of the first page until the stepper is disabled shows every
position of every page, and ends at the bottom of the last one. -/
def CoversScore (v : PracticeView) : Prop :=
  ∃ ws, StepsForward (v.windowAt 0 0) ws ∧
    (∀ pageIndex, 0 ≤ pageIndex → pageIndex < v.pageCount → ∀ y, 0 ≤ y → y ≤ 1 →
      Shows ws pageIndex y) ∧
    ∃ last ∈ ws.getLast?, last.AtBottom

/-- A whole number of windows is as high as a page, up to the tolerance. -/
def Divides (v : PracticeView) : Prop :=
  ∃ m : ℕ, 1 - edgeTolerance ≤ m * v.region.height ∧ m * v.region.height < 1 + edgeTolerance

/-- The steps from a window on show what is below its top, and end at the bottom. -/
structure Finishes (v : PracticeView) (ws : List PracticeView) : Prop where
  steps : StepsForward v ws
  page : ∀ y, v.region.top ≤ y → y ≤ 1 → Shows ws v.region.pageIndex y
  later : ∀ pageIndex, v.region.pageIndex < pageIndex → pageIndex < v.pageCount →
    ∀ y, 0 ≤ y → y ≤ 1 → Shows ws pageIndex y
  bottom : ∃ last ∈ ws.getLast?, last.AtBottom

/-- The windows at the top of the next page finish, if there is one. -/
def NextFinishes (v : PracticeView) : Prop :=
  v.region.pageIndex < v.pageCount - 1 → ∀ w : PracticeView, w.OnScore →
    w.region.pageIndex = v.region.pageIndex + 1 → w.region.top = 0 →
      w.region.height = v.region.height → w.pageCount = v.pageCount → ∃ ws, Finishes w ws

section

variable {v w : PracticeView} {ws : List PracticeView}

theorem Shows.cons {pageIndex : Int} {y : ℚ} (h : Shows ws pageIndex y) :
    Shows (v :: ws) pageIndex y := by
  obtain ⟨w, hw, hshows⟩ := h
  exact ⟨w, List.mem_cons_of_mem _ hw, hshows⟩

theorem shows_self {y : ℚ} (hy : v.region.top ≤ y)
    (hy' : y ≤ v.region.top + v.region.height + edgeTolerance) :
    Shows (v :: ws) v.region.pageIndex y := by
  have htolerance : 0 < edgeTolerance := by norm_num [edgeTolerance]
  exact ⟨v, by simp, rfl, by linarith, hy'⟩

theorem getLast?_cons_of_mem {last : PracticeView} (h : last ∈ ws.getLast?) :
    last ∈ (v :: ws).getLast? := by
  cases ws with
  | nil => cases h
  | cons w ws => exact h

/-- Where the stepper is disabled, the steps end. -/
theorem finishes_disabled (h : v.OnScore) (hlast : v.region.pageIndex = v.pageCount - 1)
    (hbottom : 1 - edgeTolerance ≤ v.region.top + v.region.height) : Finishes v [v] where
  steps := by
    refine .disabled (Bool.eq_false_iff.mpr fun henabled => ?_)
    obtain hbelow | hmore := canStepForward_iff.mp henabled
    · linarith
    · omega
  page := fun y hy hy' => shows_self hy (by linarith)
  later := fun pageIndex hlt hcount => by omega
  bottom := ⟨v, rfl, hlast, hbottom, by linarith [h.bottom_le]⟩

/-- A step down the page. -/
theorem Finishes.down (h : Finishes w ws) (henabled : v.canStepForward = true)
    (hstep : v.step 1 = some w) (hpage : w.region.pageIndex = v.region.pageIndex)
    (hcount : w.pageCount = v.pageCount) (htop : w.region.top ≤ v.region.top + v.region.height) :
    Finishes v (v :: ws) where
  steps := .step henabled hstep h.steps
  page := by
    intro y hy hy'
    have htolerance : 0 < edgeTolerance := by norm_num [edgeTolerance]
    obtain hin | hbelow := le_or_gt y (v.region.top + v.region.height)
    · exact shows_self hy (by linarith)
    · rw [← hpage]
      exact (h.page y (by linarith) hy').cons
  later := fun pageIndex hlt hpages y hy hy' =>
    (h.later pageIndex (by omega) (by omega) y hy hy').cons
  bottom := by
    obtain ⟨last, hlast, hbottom⟩ := h.bottom
    exact ⟨last, getLast?_cons_of_mem hlast, hbottom⟩

/-- A step to the top of the next page. -/
theorem Finishes.over (h : Finishes w ws) (henabled : v.canStepForward = true)
    (hstep : v.step 1 = some w) (hpage : w.region.pageIndex = v.region.pageIndex + 1)
    (hcount : w.pageCount = v.pageCount) (htop : w.region.top = 0)
    (hbottom : 1 - edgeTolerance ≤ v.region.top + v.region.height) : Finishes v (v :: ws) where
  steps := .step henabled hstep h.steps
  page := fun y hy hy' => shows_self hy (by linarith)
  later := by
    intro pageIndex hlt hpages y hy hy'
    obtain heq | hlater := eq_or_lt_of_le (show w.region.pageIndex ≤ pageIndex by omega)
    · rw [← heq]
      exact (h.page y (by linarith) hy').cons
    · exact (h.later pageIndex hlater (by omega) y hy hy').cons
  bottom := by
    obtain ⟨last, hlast, hbottom⟩ := h.bottom
    exact ⟨last, getLast?_cons_of_mem hlast, hbottom⟩

/-- From the bottom of a page, the steps go on to the next one, or end. -/
theorem finishes_bottom (h : v.OnScore) (hnext : v.NextFinishes)
    (hbottom : 1 - edgeTolerance ≤ v.region.top + v.region.height)
    (hover : v.region.pageIndex < v.pageCount - 1 →
      1 + edgeTolerance ≤ v.region.top + 2 * v.region.height) : ∃ ws, Finishes v ws := by
  have hpage := h.page_lt
  have hheight : 0 ≤ 1 - v.region.height := by linarith [h.top_nonneg, h.bottom_le]
  by_cases hlast : v.region.pageIndex < v.pageCount - 1
  · have honScore : (v.windowAt (v.region.pageIndex + 1) 0).OnScore :=
      h.windowAt (by linarith [h.page_nonneg]) (by omega) le_rfl hheight
    obtain ⟨ws, hfinishes⟩ := hnext hlast _ honScore rfl rfl rfl rfl
    have hstep := h.step_over (hover hlast)
    rw [if_pos hlast] at hstep
    exact ⟨_, hfinishes.over (canStepForward_iff.mpr (.inr hlast)) hstep rfl rfl rfl hbottom⟩
  · exact ⟨_, finishes_disabled h (by omega) hbottom⟩

theorem Rolls.le_height (h : v.OnScore) (hrolls : v.Rolls)
    (hlast : v.region.pageIndex < v.pageCount - 1) : edgeTolerance ≤ v.region.height := by
  obtain hone | hhigh := hrolls
  · have := h.page_nonneg
    omega
  · exact hhigh

/-- The window at the very bottom of a page. -/
theorem finishes_windowAt_bottom (h : v.OnScore) (hrolls : v.Rolls) (hnext : v.NextFinishes) :
    ∃ ws, Finishes (v.windowAt v.region.pageIndex (1 - v.region.height)) ws := by
  have htolerance : 0 < edgeTolerance := by norm_num [edgeTolerance]
  have hheight : 0 ≤ 1 - v.region.height := by linarith [h.top_nonneg, h.bottom_le]
  have honScore : (v.windowAt v.region.pageIndex (1 - v.region.height)).OnScore :=
    h.windowAt h.page_nonneg h.page_lt hheight le_rfl
  refine finishes_bottom honScore hnext ?_ fun hlast => ?_
  · simp only [top_windowAt, height_windowAt]
    linarith
  · have hhigh := hrolls.le_height h hlast
    simp only [top_windowAt, height_windowAt]
    linarith

/-- A step down to a window from which the steps finish. -/
theorem finishes_down (h : v.OnScore) (henabled : v.canStepForward = true)
    (hfits : v.region.top + 2 * v.region.height < 1 + edgeTolerance)
    (hnext : ∃ ws, Finishes (v.windowAt v.region.pageIndex
      (min (1 - v.region.height) (v.region.top + v.region.height))) ws) : ∃ ws, Finishes v ws := by
  obtain ⟨ws, hfinishes⟩ := hnext
  exact ⟨_, hfinishes.down henabled (h.step_down hfits) rfl rfl (min_le_right _ _)⟩

/-- When whole windows are left on a page, the steps go down it, and then on. -/
theorem finishes_page (j : ℕ) (h : v.OnScore) (hrolls : v.Rolls) (hnext : v.NextFinishes)
    (hle : 1 - edgeTolerance ≤ v.region.top + (j + 1) * v.region.height)
    (hlt : v.region.top + (j + 1) * v.region.height < 1 + edgeTolerance) :
    ∃ ws, Finishes v ws := by
  induction j generalizing v with
  | zero =>
    rw [Nat.cast_zero, zero_add, one_mul] at hle hlt
    by_cases hfits : v.region.top + 2 * v.region.height < 1 + edgeTolerance ∧
        v.region.pageIndex < v.pageCount - 1
    · have hhigh := hrolls.le_height h hfits.2
      refine finishes_down h (canStepForward_iff.mpr (.inr hfits.2)) hfits.1 ?_
      rw [min_eq_left (by linarith)]
      exact finishes_windowAt_bottom h hrolls hnext
    · refine finishes_bottom h hnext hle fun hlast => ?_
      exact not_lt.mp fun hlt => hfits ⟨hlt, hlast⟩
  | succ j ih =>
    have hpositive : 0 ≤ (j : ℚ) * v.region.height := mul_nonneg (by positivity) h.height_pos.le
    push_cast at hle hlt
    have hfits : v.region.top + 2 * v.region.height < 1 + edgeTolerance := by linarith
    cases henabled : v.canStepForward with
    | false =>
      have hend := canStepForward_iff.not.mp (Bool.eq_false_iff.mp henabled)
      push Not at hend
      exact finishes_bottom h hnext hend.1 fun hlast => absurd hlast (not_lt.mpr hend.2)
    | true =>
      refine finishes_down h henabled hfits ?_
      obtain hroom | hroom := le_total (1 - v.region.height) (v.region.top + v.region.height)
      · rw [min_eq_left hroom]
        exact finishes_windowAt_bottom h hrolls hnext
      · rw [min_eq_right hroom]
        have honScore : (v.windowAt v.region.pageIndex
            (v.region.top + v.region.height)).OnScore :=
          h.windowAt h.page_nonneg h.page_lt (by linarith [h.top_nonneg, h.height_pos]) hroom
        refine ih honScore hrolls hnext ?_ ?_
        all_goals
          simp only [top_windowAt, height_windowAt]
          linarith

theorem finishes_top_of_next (h : v.OnScore) (hrolls : v.Rolls) (hdivides : v.Divides)
    (hnext : v.NextFinishes) (htop : v.region.top = 0) : ∃ ws, Finishes v ws := by
  obtain ⟨m, hle, hlt⟩ := hdivides
  cases m with
  | zero => norm_num [edgeTolerance] at hle
  | succ j =>
    push_cast at hle hlt
    exact finishes_page j h hrolls hnext (by linarith) (by linarith)

/-- From the top of a page, the steps show that page and all later ones. -/
theorem finishes_top (d : ℕ) (h : v.OnScore) (hrolls : v.Rolls) (hdivides : v.Divides)
    (hpage : v.region.pageIndex = v.pageCount - 1 - d) (htop : v.region.top = 0) :
    ∃ ws, Finishes v ws := by
  induction d generalizing v with
  | zero =>
    refine finishes_top_of_next h hrolls hdivides (fun hlast => ?_) htop
    omega
  | succ d ih =>
    refine finishes_top_of_next h hrolls hdivides ?_ htop
    intro hlast w hw hwpage hwtop hheight hcount
    refine ih hw ?_ ?_ (by omega) hwtop
    · rw [Rolls, hheight, hcount]
      exact hrolls
    · rw [Divides, hheight]
      exact hdivides

/-! ### What the steps need -/

/-- What holds of a window and is kept by the steps forward holds of every window that is shown. -/
theorem StepsForward.all {I : PracticeView → Prop}
    (hstep : ∀ v w, I v → v.step 1 = some w → I w) (h : StepsForward v ws) (hv : I v) :
    ∀ w ∈ ws, I w := by
  induction h with
  | disabled _ => simpa using hv
  | step _ hw _ ih =>
    rw [List.forall_mem_cons]
    exact ⟨hv, ih (hstep _ _ hv hw)⟩

/-- A window of the score, where whole windows have been passed on its page. -/
structure Whole (height : ℚ) (v : PracticeView) : Prop extends OnScore v where
  height_eq : v.region.height = height
  passed : ∃ m : ℕ, m * height < 1 + edgeTolerance ∧
    v.region.top + height = min 1 (m * height)

theorem whole_step {height : ℚ} (h : Whole height v) (hstep : v.step 1 = some w) :
    Whole height w := by
  have htolerance : 0 < edgeTolerance := by norm_num [edgeTolerance]
  have hpage := h.page_lt
  have hnonneg := h.page_nonneg
  obtain ⟨m, hlt, hpassed⟩ := h.passed
  obtain rfl := h.height_eq
  have hpositive := h.height_pos
  have htop := h.top_nonneg
  have hbottom := h.bottom_le
  obtain hfits | hfits := lt_or_ge (v.region.top + 2 * v.region.height) (1 + edgeTolerance)
  · obtain rfl := Option.some.inj ((h.step_down hfits).symm.trans hstep)
    refine ⟨h.windowAt hnonneg hpage (le_min (by linarith) (by linarith)) (min_le_left _ _), rfl, ?_⟩
    rw [top_windowAt, ← min_add_add_right, sub_add_cancel]
    obtain hle | hle := le_total ((m : ℚ) * v.region.height) 1
    · rw [min_eq_right hle] at hpassed
      refine ⟨m + 1, by push_cast; linarith, ?_⟩
      push_cast
      rw [add_mul, one_mul, hpassed]
    · rw [min_eq_left hle] at hpassed
      refine ⟨m, hlt, ?_⟩
      rw [min_eq_left hle, min_eq_left (by linarith)]
  · have hover := (h.step_over hfits).symm.trans hstep
    split_ifs at hover with hlast
    · obtain rfl := Option.some.inj hover
      refine ⟨h.windowAt (by omega) (by omega) le_rfl (by linarith), rfl, 1, ?_, ?_⟩
      · rw [Nat.cast_one, one_mul]
        linarith
      · rw [top_windowAt, Nat.cast_one, one_mul, zero_add, min_eq_right (by linarith)]
    · obtain rfl := Option.some.inj hover
      exact ⟨h.toOnScore, rfl, m, hlt, hpassed⟩

/-- A window lower than the tolerance does not leave its page. -/
theorem pageIndex_step (h : v.OnScore) (hflat : v.region.height < edgeTolerance)
    (hstep : v.step 1 = some w) : w.OnScore ∧ w.region.height = v.region.height ∧
      w.region.pageIndex = v.region.pageIndex ∧ w.pageCount = v.pageCount := by
  have hfits : v.region.top + 2 * v.region.height < 1 + edgeTolerance := by
    linarith [h.bottom_le]
  obtain rfl := Option.some.inj ((h.step_down hfits).symm.trans hstep)
  refine ⟨h.windowAt h.page_nonneg h.page_lt (le_min ?_ ?_) (min_le_left _ _), rfl, rfl, rfl⟩
  · linarith [h.top_nonneg, h.bottom_le]
  · linarith [h.top_nonneg, h.height_pos]

theorem OnScore.start (h : v.OnScore) : (v.windowAt 0 0).OnScore :=
  h.windowAt le_rfl (by have := h.page_nonneg; have := h.page_lt; omega) le_rfl
    (by linarith [h.top_nonneg, h.bottom_le])

theorem CoversScore.divides (h : v.OnScore) (hcovers : v.CoversScore) : v.Divides := by
  obtain ⟨ws, hsteps, -, last, hlast, -, hbottom, -⟩ := hcovers
  have hwhole : Whole v.region.height (v.windowAt 0 0) := by
    refine ⟨h.start, rfl, 1, ?_, ?_⟩
    · have htolerance : 0 < edgeTolerance := by norm_num [edgeTolerance]
      rw [Nat.cast_one, one_mul]
      linarith [h.top_nonneg, h.bottom_le]
    · rw [top_windowAt, Nat.cast_one, one_mul, zero_add,
        min_eq_right (by linarith [h.top_nonneg, h.bottom_le])]
  have hend := hsteps.all (fun _ _ => whole_step) hwhole last (List.mem_of_getLast? hlast)
  obtain ⟨m, hlt, hpassed⟩ := hend.passed
  refine ⟨m, ?_, hlt⟩
  rw [hend.height_eq, hpassed] at hbottom
  exact hbottom.trans (min_le_right _ _)

theorem CoversScore.rolls (h : v.OnScore) (hcovers : v.CoversScore) : v.Rolls := by
  obtain ⟨ws, hsteps, -, last, hlast, hend, -, -⟩ := hcovers
  refine or_iff_not_imp_right.mpr fun hflat => ?_
  rw [not_le] at hflat
  have hstays := hsteps.all (I := fun w => w.OnScore ∧ w.region.height = v.region.height ∧
      w.region.pageIndex = 0 ∧ w.pageCount = v.pageCount)
    (fun u w hu hstep => by
      obtain ⟨honScore, hheight, hpage, hcount⟩ := hu
      obtain ⟨honScore', hheight', hpage', hcount'⟩ :=
        pageIndex_step honScore (by rwa [hheight]) hstep
      exact ⟨honScore', hheight'.trans hheight, hpage'.trans hpage, hcount'.trans hcount⟩)
    ⟨h.start, rfl, rfl, rfl⟩ last (List.mem_of_getLast? hlast)
  obtain ⟨-, -, hpage, hcount⟩ := hstays
  omega

theorem coversScore_iff (h : v.OnScore) : v.CoversScore ↔ v.Divides ∧ v.Rolls := by
  refine ⟨fun hcovers => ⟨hcovers.divides h, hcovers.rolls h⟩, fun ⟨hdivides, hrolls⟩ => ?_⟩
  have hcount : 0 < v.pageCount := by have := h.page_nonneg; have := h.page_lt; omega
  obtain ⟨ws, hfinishes⟩ := finishes_top (v.pageCount - 1).toNat h.start hrolls hdivides
    (by simp; omega) rfl
  refine ⟨ws, hfinishes.steps, fun pageIndex hnonneg hlt y hy hy' => ?_, hfinishes.bottom⟩
  obtain rfl | hlater := eq_or_lt_of_le hnonneg
  · exact hfinishes.page y hy hy'
  · exact hfinishes.later pageIndex hlater hlt y hy hy'

end

/-! ## Stepping from a window -/

/-- A tap on a stepper that is enabled. -/
def Tap (v w : PracticeView) : Prop :=
  v.canStepForward = true ∧ v.step 1 = some w ∨ v.canStepBack = true ∧ v.step (-1) = some w

/-- A whole number of windows from the top of this one ends at the bottom of the page, up to the
tolerance. -/
def MeetsBottom (v : PracticeView) : Prop :=
  ∃ k : ℕ, 1 - edgeTolerance ≤ v.region.top + k * v.region.height ∧
    v.region.top + k * v.region.height < 1 + edgeTolerance

/-- A whole number of windows above this one begins at the top of the page, up to the tolerance. -/
def MeetsTop (v : PracticeView) : Prop :=
  ∃ k : ℕ, -edgeTolerance < v.region.top - k * v.region.height ∧
    v.region.top - k * v.region.height ≤ edgeTolerance

/-- The window divides the page, and the parts of the last page and of the first one that are left
on its way. -/
structure Aligned (v : PracticeView) : Prop extends OnScore v where
  divides : v.Divides
  rolls : v.Rolls
  meetsBottom : v.region.pageIndex = v.pageCount - 1 → v.MeetsBottom
  meetsTop : v.region.pageIndex = 0 → v.MeetsTop

/-- Whatever enabled steppers are tapped from the window on, every stepper that is enabled moves the
window. -/
def KeepsAdvancing (v : PracticeView) : Prop := ∀ w, Relation.ReflTransGen Tap v w → w.Advances

section

variable {v w : PracticeView}

theorem not_cutShortBelow (h : v.OnScore) (hmeets : v.region.pageIndex = v.pageCount - 1 →
    v.MeetsBottom) : ¬v.CutShortBelow := by
  rintro ⟨hlast, hbelow, hnot⟩
  have hpositive := h.height_pos
  obtain ⟨k, hle, hlt⟩ := hmeets hlast
  obtain hk | hk := Nat.lt_or_ge k 2
  · have hone : (k : ℚ) ≤ 1 := by exact_mod_cast Nat.lt_succ_iff.mp hk
    have := mul_le_mul_of_nonneg_right hone hpositive.le
    linarith
  · have htwo : (2 : ℚ) ≤ k := by exact_mod_cast hk
    have := mul_le_mul_of_nonneg_right htwo hpositive.le
    linarith

theorem not_cutShortAbove (h : v.OnScore) (hmeets : v.region.pageIndex = 0 → v.MeetsTop) :
    ¬v.CutShortAbove := by
  rintro ⟨hfirst, habove, hnot⟩
  have hpositive := h.height_pos
  obtain ⟨k, hlt, hle⟩ := hmeets hfirst
  cases k with
  | zero =>
    rw [Nat.cast_zero, zero_mul, sub_zero] at hle
    linarith
  | succ k =>
    have hone : (1 : ℚ) ≤ (k + 1 : ℕ) := by exact_mod_cast Nat.succ_pos k
    have := mul_le_mul_of_nonneg_right hone hpositive.le
    linarith

theorem Aligned.advances (h : v.Aligned) : v.Advances :=
  (advances_iff h.toOnScore h.rolls).mpr
    ⟨not_cutShortBelow h.toOnScore h.meetsBottom, not_cutShortAbove h.toOnScore h.meetsTop⟩

/-- The window at the top of a page meets the bottom of it. -/
theorem Divides.meetsBottom (h : v.Divides) (htop : v.region.top = 0) : v.MeetsBottom := by
  obtain ⟨m, hle, hlt⟩ := h
  exact ⟨m, by rwa [htop, zero_add], by rwa [htop, zero_add]⟩

/-- The window at the bottom of a page meets the top of it. -/
theorem Divides.meetsTop (h : v.Divides) (hbottom : v.region.top = 1 - v.region.height) :
    v.MeetsTop := by
  obtain ⟨m, hle, hlt⟩ := h
  cases m with
  | zero => norm_num [edgeTolerance] at hle
  | succ k =>
    push_cast at hle hlt
    exact ⟨k, by rw [hbottom]; linarith, by rw [hbottom]; linarith⟩

/-- A window that was moved to a place of the score where it is aligned. -/
theorem Aligned.windowAt (h : v.Aligned) {pageIndex : Int} {top : ℚ}
    (honScore : (v.windowAt pageIndex top).OnScore)
    (hbottom : pageIndex = v.pageCount - 1 → (v.windowAt pageIndex top).MeetsBottom)
    (htop : pageIndex = 0 → (v.windowAt pageIndex top).MeetsTop) :
    (v.windowAt pageIndex top).Aligned where
  toOnScore := honScore
  divides := h.divides
  rolls := h.rolls
  meetsBottom := hbottom
  meetsTop := htop

theorem Aligned.step_down (h : v.Aligned)
    (hfits : v.region.top + 2 * v.region.height < 1 + edgeTolerance) :
    (v.windowAt v.region.pageIndex
      (min (1 - v.region.height) (v.region.top + v.region.height))).Aligned := by
  have honScore := h.toOnScore.step (.inl rfl) (h.toOnScore.step_down hfits)
  have hpositive := h.height_pos
  obtain hroom | hroom := le_total (1 - v.region.height) (v.region.top + v.region.height)
  · -- clamped to the bottom of the page
    rw [min_eq_left hroom] at honScore ⊢
    refine h.windowAt honScore (fun _ => ⟨1, ?_⟩) fun _ => Divides.meetsTop h.divides rfl
    norm_num [edgeTolerance]
  · rw [min_eq_right hroom] at honScore ⊢
    refine h.windowAt honScore (fun hlast => ?_) fun hfirst => ?_
    · obtain ⟨k, hle, hlt⟩ := h.meetsBottom hlast
      obtain hk | hk := Nat.lt_or_ge k 2
      · have hone : (k : ℚ) ≤ 1 := by exact_mod_cast Nat.lt_succ_iff.mp hk
        have := mul_le_mul_of_nonneg_right hone hpositive.le
        exact ⟨1, by simp; linarith, by simp; linarith⟩
      · obtain ⟨j, rfl⟩ := Nat.exists_eq_add_of_le hk
        push_cast at hle hlt
        exact ⟨j + 1, by simp; linarith, by simp; linarith⟩
    · obtain ⟨k, hlt, hle⟩ := h.meetsTop hfirst
      exact ⟨k + 1, by simp; linarith, by simp; linarith⟩

theorem Aligned.step_up (h : v.Aligned)
    (hfits : -edgeTolerance < v.region.top - v.region.height) :
    (v.windowAt v.region.pageIndex (max 0 (v.region.top - v.region.height))).Aligned := by
  have honScore := h.toOnScore.step (.inr rfl) (h.toOnScore.step_up hfits)
  have htolerance : 0 < edgeTolerance := by norm_num [edgeTolerance]
  have hpositive := h.height_pos
  obtain hroom | hroom := le_total 0 (v.region.top - v.region.height)
  · rw [max_eq_right hroom] at honScore ⊢
    refine h.windowAt honScore (fun hlast => ?_) fun hfirst => ?_
    · obtain ⟨k, hle, hlt⟩ := h.meetsBottom hlast
      exact ⟨k + 1, by simp; linarith, by simp; linarith⟩
    · obtain ⟨k, hlt, hle⟩ := h.meetsTop hfirst
      cases k with
      | zero =>
        rw [Nat.cast_zero, zero_mul, sub_zero] at hle
        exact ⟨0, by simp; linarith, by simp; linarith⟩
      | succ k =>
        push_cast at hlt hle
        exact ⟨k, by simp; linarith, by simp; linarith⟩
  · -- clamped to the top of the page
    rw [max_eq_left hroom] at honScore ⊢
    refine h.windowAt honScore (fun _ => Divides.meetsBottom h.divides rfl) fun _ => ⟨0, ?_⟩
    norm_num [edgeTolerance]

theorem Aligned.forward (h : v.Aligned) (hstep : v.step 1 = some w) : w.Aligned := by
  have hpage := h.page_nonneg
  obtain hfits | hfits := lt_or_ge (v.region.top + 2 * v.region.height) (1 + edgeTolerance)
  · obtain rfl := Option.some.inj ((h.toOnScore.step_down hfits).symm.trans hstep)
    exact h.step_down hfits
  · have honScore := h.toOnScore.step (.inl rfl) hstep
    have hover := (h.toOnScore.step_over hfits).symm.trans hstep
    split_ifs at hover with hlast
    · obtain rfl := Option.some.inj hover
      exact h.windowAt honScore (fun _ => Divides.meetsBottom h.divides rfl) fun hfirst => by omega
    · obtain rfl := Option.some.inj hover
      exact h

theorem Aligned.back (h : v.Aligned) (hstep : v.step (-1) = some w) : w.Aligned := by
  have hpage := h.page_lt
  obtain hfits | hfits := lt_or_ge (-edgeTolerance) (v.region.top - v.region.height)
  · obtain rfl := Option.some.inj ((h.toOnScore.step_up hfits).symm.trans hstep)
    exact h.step_up hfits
  · have honScore := h.toOnScore.step (.inr rfl) hstep
    have hback := (h.toOnScore.step_back hfits).symm.trans hstep
    split_ifs at hback with hfirst
    · obtain rfl := Option.some.inj hback
      exact h.windowAt honScore (fun hlast => by omega) fun _ => Divides.meetsTop h.divides rfl
    · obtain rfl := Option.some.inj hback
      exact h

theorem Aligned.tap (h : v.Aligned) (htap : Tap v w) : w.Aligned := by
  obtain ⟨-, hstep⟩ | ⟨-, hstep⟩ := htap
  · exact h.forward hstep
  · exact h.back hstep

/-- Every tap leaves the window aligned, so no tap of the run is lost. -/
theorem Aligned.keepsAdvancing (h : v.Aligned) : v.KeepsAdvancing := by
  intro w htaps
  suffices haligned : w.Aligned from haligned.advances
  induction htaps with
  | refl => exact h
  | tail _ htap ih => exact ih.tap htap

theorem KeepsAdvancing.tap (h : v.KeepsAdvancing) (htap : Tap v w) : w.KeepsAdvancing :=
  fun u htaps => h u (.head htap htaps)

/-- Down the last page, by the number of windows that are left of it. -/
theorem KeepsAdvancing.meetsBottom (n : ℕ) (h : v.OnScore) (hadvances : v.KeepsAdvancing)
    (hrolls : v.Rolls) (hlast : v.region.pageIndex = v.pageCount - 1)
    (hn : 1 - edgeTolerance ≤ v.region.top + n * v.region.height) : v.MeetsBottom := by
  have htolerance : 0 < edgeTolerance := by norm_num [edgeTolerance]
  have hbottom := h.bottom_le
  have hpositive := h.height_pos
  induction n generalizing v with
  | zero =>
    rw [Nat.cast_zero, zero_mul, add_zero] at hn
    exact ⟨1, by rw [Nat.cast_one]; linarith, by rw [Nat.cast_one]; linarith⟩
  | succ n ih =>
    obtain hends | hbelow := le_or_gt (1 - edgeTolerance) (v.region.top + v.region.height)
    · exact ⟨1, by rw [Nat.cast_one]; linarith, by rw [Nat.cast_one]; linarith⟩
    · have henabled := canStepForward_iff.mpr (.inl hbelow)
      have hnot := (forward_iff h hrolls).mp (hadvances v .refl).1
      have hfits : v.region.top + 2 * v.region.height < 1 + edgeTolerance :=
        not_le.mp fun hle => hnot ⟨hlast, hbelow, hle⟩
      have hstep := h.step_down hfits
      obtain hroom | hroom := le_or_gt (v.region.top + v.region.height) (1 - v.region.height)
      · rw [min_eq_right hroom] at hstep
        have honScore := h.step (.inl rfl) hstep
        obtain ⟨k, hle, hlt⟩ := ih honScore (hadvances.tap (.inl ⟨henabled, hstep⟩)) hrolls hlast
          (by push_cast at hn; simp; linarith) honScore.bottom_le honScore.height_pos
        simp only [top_windowAt, height_windowAt] at hle hlt
        exact ⟨k + 1, by push_cast; linarith, by push_cast; linarith⟩
      · exact ⟨2, by push_cast; linarith, by push_cast; linarith⟩

/-- Up the first page, by the number of windows above this one. -/
theorem KeepsAdvancing.meetsTop (n : ℕ) (h : v.OnScore) (hadvances : v.KeepsAdvancing)
    (hrolls : v.Rolls) (hfirst : v.region.pageIndex = 0)
    (hn : v.region.top - n * v.region.height ≤ edgeTolerance) : v.MeetsTop := by
  have htolerance : 0 < edgeTolerance := by norm_num [edgeTolerance]
  have htop := h.top_nonneg
  induction n generalizing v with
  | zero => exact ⟨0, by rw [Nat.cast_zero, zero_mul]; linarith, hn⟩
  | succ n ih =>
    obtain hends | habove := le_or_gt v.region.top edgeTolerance
    · exact ⟨0, by rw [Nat.cast_zero, zero_mul]; linarith,
        by rw [Nat.cast_zero, zero_mul]; linarith⟩
    · have henabled := canStepBack_iff.mpr (.inl habove)
      have hnot := (back_iff h hrolls).mp (hadvances v .refl).2
      have hfits : -edgeTolerance < v.region.top - v.region.height :=
        not_le.mp fun hle => hnot ⟨hfirst, habove, hle⟩
      have hstep := h.step_up hfits
      obtain hroom | hroom := le_or_gt 0 (v.region.top - v.region.height)
      · rw [max_eq_right hroom] at hstep
        have honScore := h.step (.inr rfl) hstep
        obtain ⟨k, hlt, hle⟩ := ih honScore (hadvances.tap (.inr ⟨henabled, hstep⟩)) hrolls hfirst
          (by push_cast at hn; simp; linarith) honScore.top_nonneg
        simp only [top_windowAt, height_windowAt] at hlt hle
        exact ⟨k + 1, by push_cast; linarith, by push_cast; linarith⟩
      · exact ⟨1, by rw [Nat.cast_one]; linarith, by rw [Nat.cast_one]; linarith⟩

/-- Some number of windows is as high as what is asked for. -/
theorem OnScore.exists_le_mul (h : v.OnScore) (y : ℚ) : ∃ n : ℕ, y ≤ n * v.region.height := by
  obtain ⟨n, hn⟩ := exists_nat_ge (y / v.region.height)
  exact ⟨n, (div_le_iff₀ h.height_pos).mp hn⟩

theorem keepsAdvancing_iff (h : v.OnScore) (hdivides : v.Divides) (hrolls : v.Rolls) :
    v.KeepsAdvancing ↔ (v.region.pageIndex = v.pageCount - 1 → v.MeetsBottom) ∧
      (v.region.pageIndex = 0 → v.MeetsTop) := by
  constructor
  · intro hadvances
    refine ⟨fun hlast => ?_, fun hfirst => ?_⟩
    · obtain ⟨n, hn⟩ := h.exists_le_mul (1 - edgeTolerance - v.region.top)
      exact hadvances.meetsBottom n h hrolls hlast (by linarith)
    · obtain ⟨n, hn⟩ := h.exists_le_mul (v.region.top - edgeTolerance)
      exact hadvances.meetsTop n h hrolls hfirst (by linarith)
  · rintro ⟨hbottom, htop⟩
    exact Aligned.keepsAdvancing ⟨h, hdivides, hrolls, hbottom, htop⟩

end

/-! ## Both -/

/-- Every enabled stepper moves the window, whatever was tapped before, and stepping forward shows
the whole score. -/
def Practises (v : PracticeView) : Prop := v.KeepsAdvancing ∧ v.CoversScore

theorem practises_iff {v : PracticeView} (h : v.OnScore) : v.Practises ↔
    v.Divides ∧ v.Rolls ∧ (v.region.pageIndex = v.pageCount - 1 → v.MeetsBottom) ∧
      (v.region.pageIndex = 0 → v.MeetsTop) := by
  rw [Practises, coversScore_iff h]
  constructor
  · rintro ⟨hadvances, hdivides, hrolls⟩
    exact ⟨hdivides, hrolls, (keepsAdvancing_iff h hdivides hrolls).mp hadvances⟩
  · rintro ⟨hdivides, hrolls, hmeets⟩
    exact ⟨(keepsAdvancing_iff h hdivides hrolls).mpr hmeets, hdivides, hrolls⟩

/-- Half a page at a time, on two pages. -/
def halfPages : PracticeView := ⟨⟨0, 0, 0, 1, 1 / 2⟩, 2⟩

theorem practises_iff_halfPages : halfPages.Practises := by
  refine (practises_iff ?_).mpr ⟨⟨2, ?_, ?_⟩, .inr ?_, fun _ => ⟨2, ?_, ?_⟩, fun _ => ⟨0, ?_, ?_⟩⟩
  · exact ⟨by decide, by decide, by decide +kernel, by decide +kernel, by decide +kernel,
      by decide +kernel⟩
  all_goals norm_num [halfPages, edgeTolerance]

/-- The middle two fifths of a single page. -/
def middle : PracticeView := ⟨⟨0, 0, 2 / 5, 1, 2 / 5⟩, 1⟩

/-- A fifth of the page is left below the window, and the stepper is enabled and does not move it. -/
theorem not_practises : middle.OnScore ∧ middle.canStepForward = true ∧
    middle.step 1 = some middle ∧ ¬middle.Practises := by
  have hstep : middle.step 1 = some middle := by decide +kernel
  refine ⟨?_, by decide +kernel, hstep, fun hpractises => ?_⟩
  · exact ⟨by decide, by decide, by decide +kernel, by decide +kernel, by decide +kernel,
      by decide +kernel⟩
  · obtain ⟨w, hw, hbefore⟩ := (hpractises.1 middle .refl).1 (by decide +kernel)
    obtain rfl := Option.some.inj (hstep.symm.trans hw)
    obtain hlt | ⟨-, hlt⟩ := hbefore <;> exact lt_irrefl _ hlt

end PracticeView

end Duet
