import Mathlib.Data.Option.Basic

/-!
# Runs of a transition system

A transition system is a partial step function `step : σ → ε → Option σ`: the event says
everything that is not determined by the state, and a `none` says that it is not enabled.

## Main definitions

* `run` — the state after a list of events.
* `EachStep` — a condition that every step of a run meets, on its event and the state before it.
* `Always` — a property of every state that a run visits.
* `Until` — a property that lasts until another one holds, if it ever does.
* `countSteps` — how often something happens in a run.
* `recorded` — the system together with a record of what has happened, that no step reads.

`run_invariant` is the induction over runs; `always_iff_eachStep` and `lasts_iff_eachStep` turn a
step condition that is exact for one step into one that is exact for runs.
-/

namespace Lib

variable {σ ε : Type} (step : σ → ε → Option σ)

/-- The state after performing `events` in order, `none` when one of them is not enabled. -/
def run : σ → List ε → Option σ
  | s, [] => some s
  | s, e :: es => (step s e).bind fun t => run t es

/-- Every step of the run meets `cond`, a condition on the state before it and its event. -/
def EachStep (cond : σ → ε → Prop) : σ → List ε → Prop
  | _, [] => True
  | s, e :: es => cond s e ∧ ∀ t, step s e = some t → EachStep cond t es

/-- Every state the run visits satisfies `P`. -/
def Always (P : σ → Prop) : σ → List ε → Prop
  | s, [] => P s
  | s, e :: es => P s ∧ ∀ t, step s e = some t → Always P t es

/-- Every state the run visits satisfies `P`, up to one that satisfies `Q`. -/
def Until (P Q : σ → Prop) : σ → List ε → Prop
  | s, [] => P s ∨ Q s
  | s, e :: es => Q s ∨ P s ∧ ∀ t, step s e = some t → Until P Q t es

/-- The number of steps of the run in which something happens. -/
def countSteps (happens : σ → ε → Bool) : σ → List ε → Nat
  | _, [] => 0
  | s, e :: es => (if happens s e then 1 else 0) +
    match step s e with
    | some t => countSteps happens t es
    | none => 0

variable {step}

theorem run_cons_eq_some {s u : σ} {e : ε} {es : List ε} :
    run step s (e :: es) = some u ↔ ∃ t, step s e = some t ∧ run step t es = some u := by
  simp [run, Option.bind_eq_some_iff]

/-- An entry of a list that has grown by one is the new one or an old one. -/
theorem append_singleton_eq_split {α : Type} {l before after : List α} {x y : α}
    (h : l ++ [x] = before ++ y :: after) :
    (y = x ∧ after = []) ∨ ∃ rest, after = rest ++ [x] ∧ l = before ++ y :: rest := by
  obtain rfl | ⟨rest, z, rfl⟩ := List.eq_nil_or_concat after
  · have hlast := List.append_inj_right' h rfl
    exact .inl ⟨(List.cons.inj hlast).1.symm, rfl⟩
  · have hsplit : l ++ [x] = (before ++ y :: rest) ++ [z] := by simpa using h
    obtain ⟨hl, hx⟩ := List.append_inj' hsplit rfl
    exact .inr ⟨rest, by rw [(List.cons.inj hx).1, List.concat_eq_append], hl⟩

theorem run_append (s : σ) (es fs : List ε) :
    run step s (es ++ fs) = (run step s es).bind fun t => run step t fs := by
  induction es generalizing s with
  | nil => rfl
  | cons e es ih =>
    simp only [List.cons_append, run, Option.bind_assoc]
    congr 1
    funext t
    exact ih t

theorem EachStep.mono {cond cond' : σ → ε → Prop} (h : ∀ s e, cond s e → cond' s e) {s : σ}
    {es : List ε} (hs : EachStep step cond s es) : EachStep step cond' s es := by
  induction es generalizing s with
  | nil => trivial
  | cons e es ih => exact ⟨h s e hs.1, fun t ht => ih (hs.2 t ht)⟩

theorem EachStep.and {cond cond' : σ → ε → Prop} {s : σ} {es : List ε}
    (h : EachStep step cond s es) (h' : EachStep step cond' s es) :
    EachStep step (fun s e => cond s e ∧ cond' s e) s es := by
  induction es generalizing s with
  | nil => trivial
  | cons e es ih => exact ⟨⟨h.1, h'.1⟩, fun t ht => ih (h.2 t ht) (h'.2 t ht)⟩

theorem EachStep.congr {cond cond' : σ → ε → Prop} (h : ∀ s e, cond s e ↔ cond' s e) {s : σ}
    {es : List ε} : EachStep step cond s es ↔ EachStep step cond' s es :=
  ⟨EachStep.mono fun s e => (h s e).mp, EachStep.mono fun s e => (h s e).mpr⟩

/-- Conditions that agree wherever an invariant holds. -/
theorem EachStep.congr_of_invariant {I : σ → Prop} {cond cond' : σ → ε → Prop}
    (hI : ∀ s e t, I s → step s e = some t → I t) (h : ∀ s e, I s → (cond s e ↔ cond' s e))
    {s : σ} {es : List ε} (hs : I s) : EachStep step cond s es ↔ EachStep step cond' s es := by
  induction es generalizing s with
  | nil => exact .rfl
  | cons e es ih =>
    exact and_congr (h s e hs) (forall_congr' fun t => forall_congr' fun ht => ih (hI s e t hs ht))

/-- A condition that the events meet in every state. -/
theorem EachStep.of_forall {cond : σ → ε → Prop} {s : σ} {es : List ε}
    (h : ∀ e ∈ es, ∀ t, cond t e) : EachStep step cond s es := by
  induction es generalizing s with
  | nil => trivial
  | cons e es ih => exact ⟨h e (by simp) s, fun t _ => ih fun f hf => h f (List.mem_cons_of_mem _ hf)⟩

/-- A condition that can be checked in a state can be checked along a run. -/
def decidableEachStep (cond : σ → ε → Prop) [∀ s e, Decidable (cond s e)] :
    ∀ s es, Decidable (EachStep step cond s es)
  | _, [] => isTrue trivial
  | s, e :: es =>
    match h : step s e with
    | none => decidable_of_iff (cond s e) (by simp [EachStep, h])
    | some t =>
      have := decidableEachStep cond t es
      decidable_of_iff (cond s e ∧ EachStep step cond t es) (by simp [EachStep, h])

instance {cond : σ → ε → Prop} [∀ s e, Decidable (cond s e)] (s : σ) (es : List ε) :
    Decidable (EachStep step cond s es) := decidableEachStep cond s es

/-- A condition that is checked event by event, in the state that the events before it lead to. -/
theorem EachStep.of_take {cond : σ → ε → Prop} {s : σ} {es : List ε}
    (h : ∀ i (hi : i < es.length) t, run step s (es.take i) = some t → cond t es[i]) :
    EachStep step cond s es := by
  induction es generalizing s with
  | nil => trivial
  | cons e es ih =>
    refine ⟨h 0 (Nat.zero_lt_succ _) s rfl, fun t ht => ih fun i hi u hr => ?_⟩
    exact h (i + 1) (Nat.succ_lt_succ hi) u (run_cons_eq_some.mpr ⟨t, ht, hr⟩)

/-- The condition holds of the event that follows a first part of the run. -/
theorem EachStep.at_append {cond : σ → ε → Prop} {s t : σ} {es rest : List ε} {e : ε}
    (h : EachStep step cond s (es ++ e :: rest)) (hr : run step s es = some t) : cond t e := by
  induction es generalizing s with
  | nil =>
    obtain rfl := Option.some.inj hr
    exact h.1
  | cons e' es ih =>
    obtain ⟨u, hu, hr⟩ := run_cons_eq_some.mp hr
    exact ih (h.2 u hu) hr

/-- What holds initially and is preserved by every step that meets `cond` holds at the end of
every run whose steps meet `cond`. -/
theorem run_invariant {I : σ → Prop} {cond : σ → ε → Prop}
    (hstep : ∀ s e t, I s → cond s e → step s e = some t → I t) {s u : σ} {es : List ε}
    (h : I s) (hc : EachStep step cond s es) (hr : run step s es = some u) : I u := by
  induction es generalizing s with
  | nil =>
    obtain rfl := Option.some.inj hr
    exact h
  | cons e es ih =>
    obtain ⟨t, ht, hr⟩ := run_cons_eq_some.mp hr
    exact ih (hstep s e t h hc.1 ht) (hc.2 t ht) hr

/-- Run induction without a condition on the steps. -/
theorem run_invariant' {I : σ → Prop} (hstep : ∀ s e t, I s → step s e = some t → I t)
    {s u : σ} {es : List ε} (h : I s) (hr : run step s es = some u) : I u := by
  induction es generalizing s with
  | nil =>
    obtain rfl := Option.some.inj hr
    exact h
  | cons e es ih =>
    obtain ⟨t, ht, hr⟩ := run_cons_eq_some.mp hr
    exact ih (hstep s e t h ht) hr

/-- What an invariant gives at every step that meets `cond`, every step of a run gives. -/
theorem EachStep.of_invariant {I : σ → Prop} {cond goal : σ → ε → Prop}
    (hstep : ∀ s e, I s → cond s e → goal s e ∧ ∀ t, step s e = some t → I t) {s : σ}
    {es : List ε} (hs : I s) (hc : EachStep step cond s es) : EachStep step goal s es := by
  induction es generalizing s with
  | nil => trivial
  | cons e es ih =>
    obtain ⟨hgoal, hI⟩ := hstep s e hs hc.1
    exact ⟨hgoal, fun t ht => ih (hI t ht) (hc.2 t ht)⟩

/-- A run whose steps meet `cond` stays in what the invariant gives. -/
theorem Always.of_invariant {I P : σ → Prop} {cond : σ → ε → Prop}
    (hstep : ∀ s e t, I s → cond s e → step s e = some t → I t) (hP : ∀ s, I s → P s) {s : σ}
    {es : List ε} (hs : I s) (hc : EachStep step cond s es) : Always step P s es := by
  induction es generalizing s with
  | nil => exact hP s hs
  | cons e es ih => exact ⟨hP s hs, fun t ht => ih (hstep s e t hs hc.1 ht) (hc.2 t ht)⟩

theorem Always.head {P : σ → Prop} {s : σ} {es : List ε} (h : Always step P s es) : P s := by
  cases es with
  | nil => exact h
  | cons e es => exact h.1

theorem Always.last {P : σ → Prop} {s u : σ} {es : List ε} (h : Always step P s es)
    (hr : run step s es = some u) : P u := by
  induction es generalizing s with
  | nil =>
    obtain rfl := Option.some.inj hr
    exact h
  | cons e es ih =>
    obtain ⟨t, ht, hr⟩ := run_cons_eq_some.mp hr
    exact ih (h.2 t ht) hr

/-- When an invariant `I` holds initially, is preserved by every step taken from a state of `P`,
and makes `cond` exact for `P` after one step, a run stays in `P` exactly when its steps meet
`cond`. -/
theorem always_iff_eachStep {I P : σ → Prop} {cond : σ → ε → Prop}
    (hI : ∀ s e t, I s → P s → step s e = some t → I t)
    (hP : ∀ s e t, I s → P s → step s e = some t → (P t ↔ cond s e))
    (hc : ∀ s e, step s e = none → cond s e) {s : σ} {es : List ε} (hi : I s) (hp : P s) :
    Always step P s es ↔ EachStep step cond s es := by
  induction es generalizing s with
  | nil => exact ⟨fun _ => trivial, fun _ => hp⟩
  | cons e es ih =>
    rcases ht : step s e with _ | t
    · simp [Always, EachStep, ht, hp, hc s e ht]
    · have hexact := hP s e t hi hp ht
      have hstep : Always step P s (e :: es) ↔ Always step P t es := by simp [Always, ht, hp]
      have hcond : EachStep step cond s (e :: es) ↔ cond s e ∧ EachStep step cond t es := by
        simp [EachStep, ht]
      rw [hstep, hcond]
      constructor
      · intro h
        exact ⟨hexact.mp h.head, (ih (hI s e t hi hp ht) h.head).mp h⟩
      · rintro ⟨hce, hrest⟩
        exact (ih (hI s e t hi hp ht) (hexact.mpr hce)).mpr hrest

theorem Until.head {P Q : σ → Prop} {s : σ} {es : List ε} (h : Until step P Q s es) :
    P s ∨ Q s := by
  cases es with
  | nil => exact h
  | cons e es =>
    obtain hq | hp := h
    · exact .inr hq
    · exact .inl hp.1

/-- What every step of a run keeps lasts to the end of the run. -/
theorem Until.of_eachStep {P Q : σ → Prop} {s : σ} {es : List ε}
    (h : EachStep step (fun s e => ∀ t, step s e = some t → P s → P t ∨ Q t) s es)
    (hs : P s ∨ Q s) : Until step P Q s es := by
  induction es generalizing s with
  | nil => exact hs
  | cons e es ih =>
    obtain hp | hq := hs
    · exact .inr ⟨hp, fun t ht => ih (h.2 t ht) (h.1 t ht hp)⟩
    · exact .inl hq

/-- Wherever `P` holds in a run it lasts until `Q` exactly when no step of the run ends it
otherwise. -/
theorem lasts_iff_eachStep {P Q : σ → Prop} (hpq : ∀ s, P s → ¬Q s) {s : σ} {events : List ε} :
    (∀ es fs t, events = es ++ fs → run step s es = some t → P t → Until step P Q t fs) ↔
      EachStep step (fun s e => ∀ t, step s e = some t → P s → P t ∨ Q t) s events := by
  induction events generalizing s with
  | nil =>
    refine ⟨fun _ => trivial, ?_⟩
    intro _ es fs t hsplit hr hp
    obtain ⟨rfl, rfl⟩ := List.append_eq_nil_iff.mp hsplit.symm
    exact .inl hp
  | cons e rest ih =>
    constructor
    · intro h
      refine ⟨fun t ht hp => ?_, fun t ht => ?_⟩
      · obtain hq | hlasts := h [] (e :: rest) s rfl rfl hp
        · exact absurd hq (hpq s hp)
        · exact (hlasts.2 t ht).head
      · refine ih.mp fun es fs u hsplit hr hp => h (e :: es) fs u (by rw [hsplit]; rfl) ?_ hp
        exact run_cons_eq_some.mpr ⟨t, ht, hr⟩
    · intro h es fs u hsplit hr hp
      cases es with
      | nil =>
        obtain rfl := Option.some.inj hr
        obtain rfl : fs = e :: rest := hsplit.symm
        exact Until.of_eachStep h (.inl hp)
      | cons e' es =>
        obtain ⟨rfl, rfl⟩ := List.cons.inj hsplit
        obtain ⟨t, ht, hr⟩ := run_cons_eq_some.mp hr
        exact ih.mpr (h.2 t ht) es fs u rfl hr hp

/-! ## What a run has gone through -/

section

variable {κ : Type}

/-- The system with a record that is kept along the run. -/
def recorded (step : σ → ε → Option σ) (note : κ → σ → ε → σ → κ) (s : σ × κ) (e : ε) :
    Option (σ × κ) :=
  (step s.1 e).map fun t => (t, note s.2 s.1 e t)

variable {note : κ → σ → ε → σ → κ}

theorem recorded_eq_some {s t : σ × κ} {e : ε} :
    recorded step note s e = some t ↔ step s.1 e = some t.1 ∧ t.2 = note s.2 s.1 e t.1 := by
  obtain ⟨t, k⟩ := t
  simp only [recorded, Option.map_eq_some_iff, Prod.mk.injEq]
  constructor
  · rintro ⟨u, hu, rfl, rfl⟩
    exact ⟨hu, rfl⟩
  · rintro ⟨hstep, rfl⟩
    exact ⟨t, hstep, rfl, rfl⟩

/-- What is said of the system alone does not need the record. -/
theorem always_recorded {P : σ → Prop} {s : σ} {k : κ} {es : List ε} :
    Always (recorded step note) (fun s => P s.1) (s, k) es ↔ Always step P s es := by
  induction es generalizing s k with
  | nil => exact .rfl
  | cons e es ih =>
    refine and_congr_right fun _ => ⟨fun h t ht => ?_, fun h t ht => ?_⟩
    · exact ih.mp (h (t, note k s e t) (recorded_eq_some.mpr ⟨ht, rfl⟩))
    · obtain ⟨ht, hk⟩ := recorded_eq_some.mp ht
      obtain ⟨t, k'⟩ := t
      exact ih.mpr (h t ht)

/-- An invariant of the state and the record, kept by every step that meets `cond`, gives what holds
along the run of the system itself. -/
theorem Always.of_recorded {I : σ → κ → Prop} {P : σ → Prop} {cond : σ × κ → ε → Prop}
    (hstep : ∀ s k e t, I s k → cond (s, k) e → step s e = some t → I t (note k s e t))
    (hP : ∀ s k, I s k → P s) {s : σ} {k : κ} {es : List ε} (hs : I s k)
    (hc : EachStep (recorded step note) cond (s, k) es) : Always step P s es := by
  refine always_recorded.mp (Always.of_invariant (I := fun s => I s.1 s.2) ?_ ?_ hs hc)
  · rintro s e t hI hcond ht
    obtain ⟨ht, hk⟩ := recorded_eq_some.mp ht
    rw [hk]
    exact hstep _ _ _ _ hI hcond ht
  · exact fun s hI => hP _ _ hI

end

/-! ## What happens at most once -/

section

variable {I used : σ → Prop} {cond : σ → ε → Prop} {happens : σ → ε → Bool}
  (hI : ∀ s e t, I s → cond s e → step s e = some t → I t)
  (hused : ∀ s e t, I s → cond s e → step s e = some t → used s → used t)
  (hnot : ∀ s e, I s → cond s e → used s → happens s e = false)

include hI hused hnot in
theorem countSteps_eq_zero {s : σ} {es : List ε} (hs : I s) (hu : used s)
    (hc : EachStep step cond s es) : countSteps step happens s es = 0 := by
  induction es generalizing s with
  | nil => rfl
  | cons e es ih =>
    rw [countSteps, hnot s e hs hc.1 hu]
    cases ht : step s e with
    | none => rfl
    | some t => simp [ih (hI s e t hs hc.1 ht) (hused s e t hs hc.1 ht hu) (hc.2 t ht)]

include hI hused hnot in
/-- What marks the state as used when it happens, and does not happen in a used state, happens at
most once. -/
theorem countSteps_le_one
    (hmark : ∀ s e t, I s → cond s e → happens s e = true → step s e = some t → used t)
    {s : σ} {es : List ε} (hs : I s) (hc : EachStep step cond s es) :
    countSteps step happens s es ≤ 1 := by
  induction es generalizing s with
  | nil => exact Nat.zero_le 1
  | cons e es ih =>
    rw [countSteps]
    cases ht : step s e with
    | none => cases happens s e <;> simp
    | some t =>
      have hIt := hI s e t hs hc.1 ht
      cases hhappens : happens s e with
      | true =>
        have hzero := countSteps_eq_zero hI hused hnot hIt
          (hmark s e t hs hc.1 hhappens ht) (hc.2 t ht)
        simp [hzero]
      | false => simpa using ih hIt (hc.2 t ht)

end

end Lib
