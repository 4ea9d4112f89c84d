import Mathlib.Algebra.Order.Group.Int
import Mathlib.Data.List.Count
import Mathlib.Tactic.Common

/-!
# Fixed-window metering

A meter admits up to `limit` events in a window of time, which opens with the first event after the
window before it has elapsed, and lasts `length`.

## Main definitions

* `Window`, `Window.take` — the open window, and one more event.
* `Meter` — a window, and the times of the events that have been admitted.
* `Meter.Inv` — what the window tells about them.

A window only bounds the events in it: `Meter.Inv.le_two_mul` gives the bound for any interval that
is no longer than a window, which may meet two of them, and `Meter.Inv.refused` says what has been
admitted when an event is refused.
-/

namespace Lib

/-- A window of time, and how many events have been admitted in it. -/
structure Window where
  start : Int
  count : Nat
  deriving DecidableEq, Repr

/-- The window after one more event, unless it is refused. -/
def Window.take (limit : Nat) (length now : Int) : Option Window → Option Window
  | none => some ⟨now, 1⟩
  | some w =>
    if now - w.start ≥ length then some ⟨now, 1⟩
    else if w.count ≥ limit then none
    else some { w with count := w.count + 1 }

structure Meter where
  window : Option Window
  admitted : List Int
  deriving DecidableEq, Repr

namespace Meter

/-- The events that have been admitted from `a` to `b`. -/
def between (m : Meter) (a b : Int) : Nat := m.admitted.countP fun t => a ≤ t ∧ t ≤ b

/-- What the open window tells about the events so far, `clock` being the time of the last one or
later: they are older than its end, it counts those that are in it, and an interval no longer than
it that begins in it sees no others. -/
structure InWindow (limit : Nat) (length clock : Int) (m : Meter) (w : Window) : Prop where
  start_le : w.start ≤ clock
  count_le : w.count ≤ limit
  lt_end : ∀ t ∈ m.admitted, t < w.start + length
  le_clock : ∀ t ∈ m.admitted, t ≤ clock
  since : w.count = m.admitted.countP fun t => w.start ≤ t
  inside : ∀ a b, b ≤ a + length → w.start ≤ a → m.between a b ≤ w.count
  reached : ∀ a b, b ≤ a + length → w.start ≤ b → m.between a b ≤ limit + w.count
  any : ∀ a b, b ≤ a + length → m.between a b ≤ 2 * limit

/-- Nothing has been admitted, or a window is open that tells what has been. -/
def Inv (limit : Nat) (length clock : Int) (m : Meter) : Prop :=
  match m.window with
  | none => m.admitted = []
  | some w => InWindow limit length clock m w

section

variable {limit : Nat} {length clock now : Int} {m : Meter} {w : Window} {a b : Int}

theorem between_append (window : Option Window) :
    between ⟨window, m.admitted ++ [now]⟩ a b =
      m.between a b + if a ≤ now ∧ now ≤ b then 1 else 0 := by
  simp [between, List.countP_append, List.countP_singleton]

/-- An event that opens a window. -/
theorem inWindow_opened (hlimit : 0 < limit) (hlength : 0 < length)
    (hbefore : ∀ t ∈ m.admitted, t < now)
    (hquiet : ∀ a b, b ≤ a + length → now ≤ b → m.between a b ≤ limit)
    (hany : ∀ a b, b ≤ a + length → m.between a b ≤ 2 * limit) :
    InWindow limit length now ⟨some ⟨now, 1⟩, m.admitted ++ [now]⟩ ⟨now, 1⟩ := by
  have hnone : ∀ a b, now ≤ a → m.between a b = 0 := by
    intro a b ha
    rw [between, List.countP_eq_zero]
    intro t ht
    have := hbefore t ht
    simp
    omega
  refine ⟨le_rfl, hlimit, ?_, ?_, ?_, ?_, ?_, ?_⟩
  · intro t ht
    obtain hold | rfl := List.mem_append.mp ht |>.imp_right List.mem_singleton.mp
    · have := hbefore t hold
      dsimp only
      omega
    · dsimp only
      omega
  · intro t ht
    obtain hold | rfl := List.mem_append.mp ht |>.imp_right List.mem_singleton.mp
    · exact (hbefore t hold).le
    · exact le_rfl
  · have hzero : m.admitted.countP (fun t => now ≤ t) = 0 := by
      rw [List.countP_eq_zero]
      intro t ht
      have := hbefore t ht
      simp
      omega
    simp [List.countP_append, hzero]
  · intro a b hab hstart
    rw [between_append, hnone a b hstart]
    dsimp only
    split_ifs <;> omega
  · intro a b hab hstart
    rw [between_append]
    have := hquiet a b hab hstart
    dsimp only
    split_ifs <;> omega
  · intro a b hab
    rw [between_append]
    have := hany a b hab
    split_ifs with hin
    · have := hquiet a b hab hin.2
      omega
    · omega

/-- An event in the open window. -/
theorem InWindow.counted (h : InWindow limit length clock m w) (hclock : clock ≤ now)
    (hopen : now < w.start + length) (hroom : w.count < limit) :
    InWindow limit length now
      ⟨some { w with count := w.count + 1 }, m.admitted ++ [now]⟩
        { w with count := w.count + 1 } := by
  have hstart := h.start_le
  refine ⟨by dsimp only; omega, hroom, ?_, ?_, ?_, ?_, ?_, ?_⟩
  · intro t ht
    obtain hold | rfl := List.mem_append.mp ht |>.imp_right List.mem_singleton.mp
    · exact h.lt_end t hold
    · exact hopen
  · intro t ht
    obtain hold | rfl := List.mem_append.mp ht |>.imp_right List.mem_singleton.mp
    · exact (h.le_clock t hold).trans hclock
    · exact le_rfl
  · have hin : w.start ≤ now := by omega
    simp [List.countP_append, ← h.since, hin]
  · intro a b hab hle
    rw [between_append]
    have := h.inside a b hab hle
    dsimp only
    split_ifs <;> omega
  · intro a b hab hle
    rw [between_append]
    have := h.reached a b hab hle
    dsimp only
    split_ifs <;> omega
  · intro a b hab
    rw [between_append]
    split_ifs with hin
    · have := h.reached a b hab (by omega)
      omega
    · have := h.any a b hab
      omega

/-- Every event that is admitted keeps the invariant. -/
theorem Inv.take (h : m.Inv limit length clock) (hlimit : 0 < limit) (hlength : 0 < length)
    (hclock : clock ≤ now) {w' : Window} (htake : Window.take limit length now m.window = some w') :
    Inv limit length now ⟨some w', m.admitted ++ [now]⟩ := by
  obtain ⟨window, admitted⟩ := m
  cases window with
  | none =>
    obtain rfl : admitted = [] := h
    obtain rfl := Option.some.inj htake
    exact inWindow_opened (m := ⟨none, []⟩) hlimit hlength nofun
      (fun _ _ _ _ => Nat.zero_le _) (fun _ _ _ => Nat.zero_le _)
  | some w =>
    have hwindow : InWindow limit length clock ⟨some w, admitted⟩ w := h
    simp only [Window.take] at htake
    split_ifs at htake with helapsed hfull
    · obtain rfl := Option.some.inj htake
      refine inWindow_opened hlimit hlength (fun t ht => ?_) (fun a b hab hb => ?_) hwindow.any
      · have := hwindow.lt_end t ht
        omega
      -- the interval begins in the window that has elapsed
      · have := hwindow.inside a b hab (by omega)
        have := hwindow.count_le
        omega
    · obtain rfl := Option.some.inj htake
      exact hwindow.counted hclock (by omega) (by omega)

theorem Inv.mono (h : m.Inv limit length clock) (hclock : clock ≤ now) : m.Inv limit length now := by
  obtain ⟨window, admitted⟩ := m
  cases window with
  | none => exact h
  | some w =>
    have hwindow : InWindow limit length clock ⟨some w, admitted⟩ w := h
    exact { hwindow with
      start_le := hwindow.start_le.trans hclock
      le_clock := fun t ht => (hwindow.le_clock t ht).trans hclock }

/-- An interval no longer than a window meets two of them at most. -/
theorem Inv.le_two_mul (h : m.Inv limit length clock) (hab : b ≤ a + length) :
    m.between a b ≤ 2 * limit := by
  obtain ⟨window, admitted⟩ := m
  cases window with
  | none =>
    obtain rfl : admitted = [] := h
    exact Nat.zero_le _
  | some w => exact InWindow.any h a b hab

/-- An event is refused when `limit` events have been admitted no longer than a window before. -/
theorem Inv.refused (h : m.Inv limit length clock) (hclock : clock ≤ now)
    (htake : Window.take limit length now m.window = none) :
    limit ≤ m.admitted.countP fun t => now - length < t ∧ t ≤ now := by
  obtain ⟨window, admitted⟩ := m
  cases window with
  | none => cases htake
  | some w =>
    have hwindow : InWindow limit length clock ⟨some w, admitted⟩ w := h
    simp only [Window.take] at htake
    split_ifs at htake with helapsed hfull
    have hle : (admitted.countP fun t => w.start ≤ t) ≤
        admitted.countP fun t => now - length < t ∧ t ≤ now := by
      refine List.countP_mono_left fun t ht hstart => ?_
      have := hwindow.le_clock t ht
      simp only [decide_eq_true_eq] at hstart ⊢
      omega
    exact (hfull.trans hwindow.since.le).trans hle

end

end Meter

end Lib
