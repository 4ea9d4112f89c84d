import Duet.Lib.Jobs

/-!
# Where a state has it from

What a state at the end of a run shows has been shown since the run began, or since a step of the run
that brought it.

## Main definitions

* `Visits` — the run passes through the state.
* `Brought` — a step of the run brings it, and it is shown from then on.

## Main results

* `always_or_brought` — from what one step can bring to what a run has brought.
* `Jobs.issues_run` — what jobs issue, given what the states of the run have answered them.
-/

namespace Lib

variable {σ ε : Type}

section

variable (step : σ → ε → Option σ)

/-- The run passes through the state `t`. -/
def Visits (s : σ) (es : List ε) (t : σ) : Prop := ∃ es₁, es₁ <+: es ∧ run step s es₁ = some t

/-- A step of the run that `brings` it leads to a state from which on `shows` holds. -/
def Brought (brings : σ → ε → Prop) (shows : σ → Prop) (s : σ) (es : List ε) : Prop :=
  ∃ es₁ e es₂ t u, es = es₁ ++ e :: es₂ ∧ run step s es₁ = some t ∧ step t e = some u ∧
    brings t e ∧ Always step shows u es₂

end

section

variable {step : σ → ε → Option σ} {s t u : σ} {e : ε} {es : List ε}

theorem Visits.start (s : σ) (es : List ε) : Visits step s es s := ⟨[], List.nil_prefix, rfl⟩

theorem Visits.cons (hstep : step s e = some t) (h : Visits step t es u) :
    Visits step s (e :: es) u := by
  obtain ⟨es₁, hprefix, hr⟩ := h
  exact ⟨e :: es₁, (List.prefix_cons_inj e).mpr hprefix, run_cons_eq_some.mpr ⟨t, hstep, hr⟩⟩

theorem Brought.cons {brings : σ → ε → Prop} {shows : σ → Prop} (hstep : step s e = some t)
    (h : Brought step brings shows t es) : Brought step brings shows s (e :: es) := by
  obtain ⟨es₁, e', es₂, v, w, rfl, hr, hrest⟩ := h
  exact ⟨e :: es₁, e', es₂, v, w, rfl, run_cons_eq_some.mpr ⟨t, hstep, hr⟩, hrest⟩

/-- Where a step shows only what was shown before it or what it brings, so does a run. -/
theorem always_or_brought {I : σ → Prop} {brings : σ → ε → Prop} {shows : σ → Prop}
    (hI : ∀ s e t, I s → step s e = some t → I t)
    (hone : ∀ s e t, I s → step s e = some t → shows t → shows s ∨ brings s e)
    (hs : I s) (hr : run step s es = some u) (hshown : shows u) :
    Always step shows s es ∨ Brought step brings shows s es := by
  induction es generalizing s with
  | nil =>
    obtain rfl := Option.some.inj hr
    exact .inl hshown
  | cons e es ih =>
    obtain ⟨t, hstep, hr⟩ := run_cons_eq_some.mp hr
    have hrest (h : Always step shows t es) : ∀ t', step s e = some t' → Always step shows t' es := by
      grind
    obtain halways | hbrought := ih (hI s e t hs hstep) hr
    · obtain hold | hnew := hone s e t hs hstep halways.head
      · exact .inl ⟨hold, hrest halways⟩
      · exact .inr ⟨[], e, es, s, t, rfl, rfl, hstep, hnew, halways⟩
    · exact .inr (hbrought.cons hstep)

/-- What a run comes to show, one of its steps has shown first. -/
theorem exists_shows_first (shows : σ → Prop) (hs : ¬shows s) (hr : run step s es = some u)
    (hshown : shows u) : ∃ es₁ e es₂ t v, es = es₁ ++ e :: es₂ ∧ run step s es₁ = some t ∧
      step t e = some v ∧ ¬shows t ∧ shows v := by
  obtain halways | ⟨es₁, e, es₂, t, v, rfl, hr₁, hstep, hbefore, hafter⟩ :=
    @always_or_brought σ ε step s u es (fun _ => True) (fun t _ => ¬shows t) shows
      (fun _ _ _ _ _ => trivial) (fun t _ _ _ _ _ => Classical.em (shows t)) trivial hr hshown
  · exact absurd halways.head hs
  · exact ⟨es₁, e, es₂, t, v, rfl, hr₁, hstep, hbefore, hafter.head⟩

theorem eachStep_visits (s : σ) (es : List ε) :
    EachStep step (fun t _ => Visits step s es t) s es :=
  .of_take fun i _ _ hr => ⟨es.take i, List.take_prefix i es, hr⟩

end

/-- What is done with a value that is there. -/
theorem Program.Issues.orFail_bind {ω α β ε : Type} {ρ : ω → Type} {can : (o : ω) → ρ o → Prop}
    {ok : ω → Prop} {a : Option α} {e : ε} {f : α → Program ω ρ ε β}
    (h : ∀ b, a = some b → (f b).Issues can ok) :
    ((Program.orFail a e : Program ω ρ ε α) >>= f).Issues can ok := by
  cases a with
  | none => trivial
  | some b => exact h b rfl

/-! ## Jobs -/

namespace Jobs

variable {γ ω α η σ ε : Type} {ρ : ω → Type} {program : γ → Program ω ρ ε α}
  {interpret : Interpreter ω ρ ε σ} {environment : σ → η → Option σ} {s t : Jobs γ ω ρ ε α σ}
  {event : JobEvent η γ ε} {events : List (JobEvent η γ ε)}

/-- A step issues what the programs issue, with the responses that this state gives. -/
theorem issues_step_here {can : (o : ω) → ρ o → Prop} (ok : γ → ω → Prop)
    (hcan : ∀ o r, (interpret o s.state).1 = .ok r → can o r)
    (hprogram : ∀ job, (program job).Issues can (ok job))
    (h : ∀ running ∈ s.running, running.program.Issues can (ok running.job))
    (hstep : step program interpret environment s event = some t) :
    ∀ running ∈ t.running, running.program.Issues can (ok running.job) := by
  cases event with
  | environment e =>
    obtain ⟨state, -, rfl⟩ := environment_step.mp hstep
    exact h
  | start job =>
    obtain rfl := start_step.mp hstep
    grind
  | advance i =>
    obtain ⟨running, o, k, hi, -, rfl⟩ := advance_step.mp hstep
    intro other hother
    obtain hother | rfl := List.mem_or_eq_of_mem_set hother
    · exact h other hother
    · exact (h running (List.mem_of_getElem? hi)).advance interpret s.state
        fun o r _ hr => hcan o r hr
  | lose i e =>
    obtain ⟨running, o, k, hi, -, rfl⟩ := lose_step.mp hstep
    intro other hother
    obtain hother | rfl := List.mem_or_eq_of_mem_set hother
    · exact h other hother
    · trivial

section

variable (program interpret environment)

/-- A state of the run gives the response to the operation. -/
def Answered (s : Jobs γ ω ρ ε α σ) (events : List (JobEvent η γ ε)) (o : ω) (r : ρ o) : Prop :=
  ∃ t, Visits (step program interpret environment) s events t ∧ (interpret o t.state).1 = .ok r

end

/-- After a run the jobs issue what their programs issue, as long as they count on nothing but what a
state of the run has answered. -/
theorem issues_run (ok : γ → ω → Prop) (hidle : s.running = [])
    (hprogram : ∀ job, (program job).Issues (Answered program interpret environment s events) (ok job))
    (hr : run (step program interpret environment) s events = some t) :
    ∀ running ∈ t.running,
      running.program.Issues (Answered program interpret environment s events) (ok running.job) := by
  refine run_invariant (I := fun t => ∀ running ∈ t.running,
      running.program.Issues (Answered program interpret environment s events) (ok running.job))
    (fun u e v hu hvisits hstep => ?_) (by simp [hidle]) (eachStep_visits s events) hr
  exact issues_step_here ok (fun o r hresponse => ⟨u, hvisits, hresponse⟩) hprogram hu hstep

end Jobs

end Lib
