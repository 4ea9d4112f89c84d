import Duet.Lib.Fallible
import Duet.Lib.Transition

/-!
# A process that may be stopped anywhere

A process runs a fallible program on a state, over and over. Every operation of the program meets
its fate, and the process may be killed between any two: what is left of the program is then lost,
and the state keeps what survives a restart.

## Main definitions

* `Process` — the state, what is left of the running program, the outcome of the last one.
* `Process.step` — the program begins, its next operation, a kill.
* `Faulty` — what an operation that may fail responds and leaves.
* `Process.Keeps` — an invariant that also holds all along what is left of the program.

`Process.keeps_step` is the rule: what a program keeps `Always` is kept by every step.
-/

namespace Lib

variable {χ ω ε α σ : Type} {ρ : ω → Type}

/-- The operation has its effect. -/
def Fate.takesEffect : Fate ε → Bool
  | performed | unreported _ => true
  | refused _ => false

/-- The response to an operation that meets a fate and the state it leaves; `given` is what the
operation gets from outside, and `may` restricts what happens. -/
def Faulty (perform : χ → (o : ω) → σ → Except ε (ρ o) × σ) (may : χ → Fate ε → ω → σ → Prop)
    (o : ω) (s : σ) (r : Except ε (ρ o)) (t : σ) : Prop :=
  ∃ given fate, may given fate o s ∧ fate.apply s (perform given o s) = (r, t)

/-- A state, the rest of the program that runs on it, and how the last program ended, unless it was
killed. -/
structure Process (σ ω : Type) (ρ : ω → Type) (ε α : Type) where
  state : σ
  running : Option (Fallible ω ρ ε α)
  outcome : Option (Except ε α)

inductive ProcessEvent (χ ε : Type) where
  | begin
  | advance (given : χ) (fate : Fate ε)
  | kill
  deriving DecidableEq, Repr

namespace Process

/-- No program runs. -/
def idle (s : σ) : Process σ ω ρ ε α := ⟨s, none, none⟩

/-- What is left of a program; one that has ended leaves its outcome. -/
def resume (s : σ) : Fallible ω ρ ε α → Process σ ω ρ ε α
  | .done a => ⟨s, none, some (.ok a)⟩
  | .fail e => ⟨s, none, some (.error e)⟩
  | .call o k => ⟨s, some (.call o k), none⟩

/-- The operation that is next. -/
def next? (p : Process σ ω ρ ε α) : Option ω := p.running.bind Program.next?

section

variable (perform : χ → (o : ω) → σ → Except ε (ρ o) × σ) (restart : σ → σ)
  (program : Fallible ω ρ ε α)

/-- One event; a program begins only when none is running. -/
def step (p : Process σ ω ρ ε α) : ProcessEvent χ ε → Option (Process σ ω ρ ε α)
  | .begin => if p.running.isNone then some (resume p.state program) else none
  | .advance given fate =>
    match p.running with
    | some (.call o k) =>
      let result := fate.apply p.state (perform given o p.state)
      some (resume result.2 (k result.1))
    | _ => none
  | .kill => some ⟨restart p.state, none, none⟩

end

variable {perform : χ → (o : ω) → σ → Except ε (ρ o) × σ} {restart : σ → σ}
  {program : Fallible ω ρ ε α} {may : χ → Fate ε → ω → σ → Prop} {I : σ → Prop}
  {Q : Except ε α → σ → Prop} {p t : Process σ ω ρ ε α}

@[simp] theorem state_resume (s : σ) (q : Fallible ω ρ ε α) : (resume s q).state = s := by
  cases q <;> rfl

theorem begin_step : step perform restart program p .begin = some t ↔
    p.running = none ∧ t = resume p.state program := by
  cases hrunning : p.running with
  | none => simpa [step, hrunning] using eq_comm
  | some q => simp [step, hrunning]

theorem advance_step {given : χ} {fate : Fate ε} :
    step perform restart program p (.advance given fate) = some t ↔
      ∃ o k, p.running = some (.call o k) ∧
        t = resume (fate.apply p.state (perform given o p.state)).2
          (k (fate.apply p.state (perform given o p.state)).1) := by
  cases hrunning : p.running with
  | none => simp [step, hrunning]
  | some q =>
    cases q with
    | done a => simp [step, hrunning]
    | fail e => simp [step, hrunning]
    | call o k =>
      simp only [step, hrunning, Option.some.injEq]
      constructor
      · intro h
        exact ⟨o, k, rfl, h.symm⟩
      · rintro ⟨o', k', hcall, rfl⟩
        cases hcall
        rfl

theorem kill_step : step perform restart program p .kill = some t ↔
    t = ⟨restart p.state, none, none⟩ := by
  simpa [step] using eq_comm

/-- The fate of an operation is one that `may` allows. -/
def Allowed (may : χ → Fate ε → ω → σ → Prop) (p : Process σ ω ρ ε α) :
    ProcessEvent χ ε → Prop
  | .advance given fate => ∀ o, p.next? = some o → may given fate o p.state
  | _ => True

instance {e : ProcessEvent χ ε} [∀ given fate o s, Decidable (may given fate o s)] :
    Decidable (p.Allowed may e) :=
  match e with
  | .begin | .kill => isTrue trivial
  | .advance given fate =>
    match h : p.next? with
    | none => isTrue (by simp [Allowed, h])
    | some o => decidable_of_iff (may given fate o p.state) (by simp [Allowed, h])

/-- The state is in `I`, the rest of the program stays in it and ends in `Q`, and so has the last
program. -/
structure Keeps (next : (o : ω) → σ → Except ε (ρ o) → σ → Prop) (I : σ → Prop)
    (Q : Except ε α → σ → Prop) (p : Process σ ω ρ ε α) : Prop where
  state : I p.state
  running : ∀ q, p.running = some q → q.Always next I Q p.state
  outcome : ∀ r, p.outcome = some r → Q r p.state

theorem keeps_idle {next : (o : ω) → σ → Except ε (ρ o) → σ → Prop} {s : σ} (h : I s) :
    (idle s : Process σ ω ρ ε α).Keeps next I Q :=
  ⟨h, by simp [idle], by simp [idle]⟩

theorem keeps_resume {next : (o : ω) → σ → Except ε (ρ o) → σ → Prop} {s : σ}
    {q : Fallible ω ρ ε α} (hI : I s) (h : q.Always next I Q s) : (resume s q).Keeps next I Q := by
  cases q with
  | done a => exact ⟨hI, by simp [resume], by simpa [resume] using h⟩
  | fail e => exact ⟨hI, by simp [resume], by simpa [resume] using h⟩
  | call o k => exact ⟨hI, by simpa [resume] using h, by simp [resume]⟩

/-- Every step keeps what the program keeps from where it begins, as long as a restart keeps
`I`. -/
theorem keeps_step
    (hprogram : p.running = none → program.Always (Faulty perform may) I Q p.state)
    (hrestart : ∀ s, I s → I (restart s)) {e : ProcessEvent χ ε}
    (hp : p.Keeps (Faulty perform may) I Q) (he : p.Allowed may e) (hstep : step perform restart program p e = some t) :
    t.Keeps (Faulty perform may) I Q := by
  cases e with
  | begin =>
    obtain ⟨hidle, rfl⟩ := begin_step.mp hstep
    exact keeps_resume hp.state (hprogram hidle)
  | advance given fate =>
    obtain ⟨o, k, hrunning, rfl⟩ := advance_step.mp hstep
    have hmay : may given fate o p.state := he o (by simp [next?, hrunning, Program.next?])
    obtain ⟨hI, hrest⟩ := (hp.running _ hrunning).step ⟨given, fate, hmay, rfl⟩
    exact keeps_resume hI hrest
  | kill =>
    obtain rfl := kill_step.mp hstep
    exact ⟨hrestart _ hp.state, by simp, by simp⟩

/-- The rest of a program obeys what the program obeys, on a part of the state. -/
theorem obeys_step {κ : Type} (view : σ → κ) {next : (o : ω) → κ → Except ε (ρ o) → κ → Prop}
    {ok : ω → κ → Prop} {Q : Except ε α → κ → Prop}
    (hprogram : p.running = none → program.Obeys next ok Q (view p.state)) {e : ProcessEvent χ ε}
    (hnext : ∀ (given : χ) (fate : Fate ε) o,
      next o (view p.state) (fate.apply p.state (perform given o p.state)).1
        (view (fate.apply p.state (perform given o p.state)).2))
    (hp : ∀ q, p.running = some q → q.Obeys next ok Q (view p.state))
    (hstep : step perform restart program p e = some t) :
    ∀ q, t.running = some q → q.Obeys next ok Q (view t.state) := by
  have hresume : ∀ (s : σ) (q : Fallible ω ρ ε α), q.Obeys next ok Q (view s) →
      ∀ q', (resume s q).running = some q' → q'.Obeys next ok Q (view (resume s q).state) := by
    intro s q hq q' hq'
    rw [state_resume]
    cases q with
    | done a => cases hq'
    | fail e => cases hq'
    | call o k =>
      obtain rfl := Option.some.inj hq'
      exact hq
  cases e with
  | begin =>
    obtain ⟨hidle, rfl⟩ := begin_step.mp hstep
    exact hresume _ _ (hprogram hidle)
  | advance given fate =>
    obtain ⟨o, k, hrunning, rfl⟩ := advance_step.mp hstep
    exact hresume _ _ ((hp _ hrunning).2 _ _ (hnext given fate o))
  | kill =>
    obtain rfl := kill_step.mp hstep
    simp

end Process

section

variable {perform : χ → (o : ω) → σ → Except ε (ρ o) × σ} {may : χ → Fate ε → ω → σ → Prop}
  {I : σ → Prop} {s t : σ} {o : ω} {r : Except ε (ρ o)}

/-- Whatever its fate, an operation keeps what its effect keeps. -/
theorem Faulty.keeps (hs : I s)
    (heffect : ∀ given fate, may given fate o s → I (perform given o s).2)
    (h : Faulty perform may o s r t) : I t := by
  obtain ⟨given, fate, hmay, happly⟩ := h
  obtain ⟨-, rfl⟩ := Prod.mk.inj happly
  cases fate with
  | performed => exact heffect _ _ hmay
  | refused e => exact hs
  | unreported e => exact heffect _ _ hmay

/-- An operation that keeps `I` when it has its effect, and whose failures are passed on. -/
theorem Program.Always.ask_faulty {Q : Except ε (ρ o) → σ → Prop} (hI : I s)
    (herror : ∀ e t, I t → Q (.error e) t)
    (heffect : ∀ given fate, may given fate o s →
      I (perform given o s).2 ∧ Q (perform given o s).1 (perform given o s).2) :
    (Fallible.ask o : Fallible ω ρ ε (ρ o)).Always (Faulty perform may) I Q s := by
  refine .ask fun r t hnext => ⟨hnext.keeps hI fun given fate hmay => (heffect given fate hmay).1, ?_⟩
  obtain ⟨given, fate, hmay, happly⟩ := hnext
  obtain ⟨rfl, rfl⟩ := Prod.mk.inj happly
  obtain ⟨hkept, hQ⟩ := heffect given fate hmay
  cases fate with
  | performed => exact hQ
  | refused e => exact herror e s hI
  | unreported e => exact herror e _ hkept

/-- An operation that reads a value off the state, and what holds when it has. -/
theorem Program.Always.ask_read {Q : Except ε (ρ o) → σ → Prop} {a : ρ o} (hI : I s)
    (hread : ∀ given, perform given o s = (.ok a, s)) (hok : Q (.ok a) s)
    (herror : ∀ e, Q (.error e) s) :
    (Fallible.ask o : Fallible ω ρ ε (ρ o)).Always (Faulty perform may) I Q s := by
  refine .ask fun r t ⟨given, fate, _, happly⟩ => ?_
  rw [hread] at happly
  obtain ⟨rfl, rfl⟩ := Prod.mk.inj happly
  cases fate with
  | performed => exact ⟨hI, hok⟩
  | refused e => exact ⟨hI, herror e⟩
  | unreported e => exact ⟨hI, herror e⟩

/-- An operation that keeps `A` when it has its effect. -/
theorem Program.Upholds.ask {B : ρ o → σ → Prop} {E : σ → Prop} (hA : I s)
    (heffect : ∀ given fate, may given fate o s → I (perform given o s).2 ∧
      EndsIn B E (perform given o s).1 (perform given o s).2)
    (hfault : ∀ given fate t, may given fate o s → fate ≠ .performed → E t) :
    Upholds (Faulty perform may) I (Fallible.ask o) B E s := by
  refine Always.ask fun r t hnext => ?_
  obtain ⟨given, fate, hmay, happly⟩ := hnext
  obtain ⟨rfl, rfl⟩ := Prod.mk.inj happly
  have hperformed := heffect given fate hmay
  cases fate with
  | performed => exact ⟨hperformed.1, hperformed⟩
  | refused e => exact ⟨hA, hA, hfault given _ s hmay (by simp)⟩
  | unreported e => exact ⟨hperformed.1, hperformed.1, hfault given _ _ hmay (by simp)⟩

/-- An operation that reads a value off the state. -/
theorem Program.Upholds.ask_read {E : σ → Prop} {a : χ → ρ o} (hA : I s)
    (hread : ∀ given, perform given o s = (.ok (a given), s))
    (hfault : ∀ given fate t, may given fate o s → fate ≠ .performed → E t) :
    Upholds (Faulty perform may) I (Fallible.ask o)
      (fun r t => t = s ∧ ∃ given, r = a given) E s := by
  refine .ask hA (fun given fate _ => ?_) hfault
  rw [hread]
  exact ⟨hA, rfl, given, rfl⟩

end

/-! ## Programs whose operations are all performed -/

section

variable {perform : χ → (o : ω) → σ → Except ε (ρ o) × σ} {restart : σ → σ}
  {program : Fallible ω ρ ε α}

/-- What a program can lead to, a process can come to. -/
theorem Process.exists_run_of_leads {p q : Fallible ω ρ ε α} {s t : σ}
    (h : p.Leads (Faulty perform fun _ _ _ _ => True) s q t) :
    ∃ events, run (step perform restart program) (resume s p) events = some (resume t q) := by
  induction h with
  | refl p s => exact ⟨[], rfl⟩
  | call hnext _ ih =>
    obtain ⟨given, fate, -, happly⟩ := hnext
    obtain ⟨events, hrun⟩ := ih
    refine ⟨.advance given fate :: events, run_cons_eq_some.mpr ⟨_, ?_, hrun⟩⟩
    exact advance_step.mpr ⟨_, _, rfl, by rw [state_resume, happly]⟩

/-- The next `n` operations are performed. -/
def performing (given : Nat → χ) (n : Nat) : List (ProcessEvent χ ε) :=
  (List.range n).map fun i => .advance (given i) .performed

/-- A program whose operations are all performed ends. -/
theorem Process.exists_run_performing (given : Nat → χ) (q : Fallible ω ρ ε α) (s : σ) :
    ∃ n p, run (step perform restart program) (resume s q) (performing given n) = some p ∧
      p.running = none := by
  induction q generalizing given s with
  | done a => exact ⟨0, _, rfl, rfl⟩
  | fail e => exact ⟨0, _, rfl, rfl⟩
  | call o k ih =>
    obtain ⟨n, p, hrun, hended⟩ :=
      ih (perform (given 0) o s).1 (fun i => given (i + 1)) (perform (given 0) o s).2
    refine ⟨n + 1, p, ?_, hended⟩
    rw [performing, List.range_succ_eq_map, List.map_cons, List.map_map]
    exact run_cons_eq_some.mpr ⟨_, rfl, hrun⟩

/-- A program that has ended without a kill has an outcome. -/
theorem Process.outcome_run_performing {given : Nat → χ} {n : Nat} {q : Fallible ω ρ ε α} {s : σ}
    {p : Process σ ω ρ ε α}
    (hrun : run (step perform restart program) (resume s q) (performing given n) = some p)
    (hended : p.running = none) : p.outcome ≠ none := by
  induction n generalizing given q s with
  | zero =>
    obtain rfl := Option.some.inj hrun
    cases q with
    | call o k => cases hended
    | _ => simp [resume]
  | succ n ih =>
    rw [performing, List.range_succ_eq_map, List.map_cons, List.map_map] at hrun
    obtain ⟨t, ht, hrun⟩ := run_cons_eq_some.mp hrun
    obtain ⟨o, k, -, rfl⟩ := advance_step.mp ht
    exact ih hrun

end

end Lib
