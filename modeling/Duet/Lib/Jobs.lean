import Duet.Lib.Program
import Duet.Lib.Transition
import Mathlib.Logic.Function.Basic

/-!
# Jobs on a shared state

Programs that run at once on one state, interleaved one operation at a time. An environment changes
the state in between, and a job may be lost before its next operation.

## Main definitions

* `Program.Secures` — where the program ends, whatever the others do that the rely allows.
* `Jobs`, `Jobs.step` — the state, the jobs on it, and one event.
* `Jobs.Secured` — every job secures its postcondition.
* `Jobs.learnt`, `Jobs.Obeys` — what each job has learnt from its responses, and that it issues only
  what that allows.

`Secures.bind` is the rule for sequences, and `secured_step` the one for steps. The rely is also
what every job guarantees to the others.
-/

namespace Lib

variable {ω : Type} {ρ : ω → Type} {ε α β γ η κ σ : Type}

/-! ## Postconditions under interference -/

namespace Program

section

variable (interpret : Interpreter ω ρ ε σ) (rely : σ → σ → Prop)

/-- The program moves the state only as `rely` says, and wherever it ends its postcondition holds,
and goes on to hold, as long as the others move the state only as `rely` says. -/
def Secures (post : α → σ → Prop) : Program ω ρ ε α → σ → Prop
  | done a, s => ∀ t, rely s t → post a t
  | fail _, _ => True
  | call o k, s => ∀ t, rely s t → rely t (interpret o t).2 ∧
      ∀ r, (interpret o t).1 = .ok r → (k r).Secures post (interpret o t).2

end

variable {interpret : Interpreter ω ρ ε σ} {rely : σ → σ → Prop} {s t : σ}

@[simp] theorem secures_fail (post : α → σ → Prop) (e : ε) :
    (fail e : Program ω ρ ε α).Secures interpret rely post s := trivial

/-- The others may go on before the program does. -/
theorem Secures.stable (htrans : ∀ s t u, rely s t → rely t u → rely s u) {post : α → σ → Prop}
    {p : Program ω ρ ε α} (h : p.Secures interpret rely post s) (hrely : rely s t) :
    p.Secures interpret rely post t := by
  cases p with
  | done a => exact fun u hu => h u (htrans s t u hrely hu)
  | fail e => trivial
  | call o k => exact fun u hu => h u (htrans s t u hrely hu)

/-- A first part that secures what the second one needs. -/
theorem Secures.bind (hrefl : ∀ s, rely s s) {mid : α → σ → Prop} {post : β → σ → Prop}
    {p : Program ω ρ ε α} {f : α → Program ω ρ ε β} (hp : p.Secures interpret rely mid s)
    (hf : ∀ a t, mid a t → (f a).Secures interpret rely post t) :
    (p >>= f).Secures interpret rely post s := by
  induction p generalizing s with
  | done a => exact hf a s (hp s (hrefl s))
  | fail e => trivial
  | call o k ih =>
    intro t ht
    obtain ⟨hmove, hrest⟩ := hp t ht
    exact ⟨hmove, fun r hr => ih r (hrest r hr)⟩

/-- A program whose value is made into another. -/
theorem Secures.map {f : α → β} {post : β → σ → Prop} {p : Program ω ρ ε α}
    (h : p.Secures interpret rely (fun a => post (f a)) s) :
    (p >>= fun a => done (f a)).Secures interpret rely post s := by
  induction p generalizing s with
  | done a => exact h
  | fail e => trivial
  | call o k ih =>
    intro t ht
    obtain ⟨hmove, hrest⟩ := h t ht
    exact ⟨hmove, fun r hr => ih r (hrest r hr)⟩

theorem Secures.mono {post post' : α → σ → Prop} (hpost : ∀ a s, post a s → post' a s)
    {p : Program ω ρ ε α} (h : p.Secures interpret rely post s) :
    p.Secures interpret rely post' s := by
  induction p generalizing s with
  | done a => exact fun t ht => hpost a t (h t ht)
  | fail e => trivial
  | call o k ih =>
    intro t ht
    obtain ⟨hmove, hrest⟩ := h t ht
    exact ⟨hmove, fun r hr => ih r (hrest r hr)⟩

/-- A program whose operations all keep to the rely secures nothing else. -/
theorem Issues.secures {ok : ω → Prop} (hok : ∀ o s, ok o → rely s (interpret o s).2)
    {p : Program ω ρ ε α} (h : p.Issues (fun _ _ => True) ok) :
    p.Secures interpret rely (fun _ _ => True) s := by
  induction p generalizing s with
  | done a => exact fun _ _ => trivial
  | fail e => trivial
  | call o k ih => exact fun t _ => ⟨hok o t h.1, fun r _ => ih r (h.2 r trivial)⟩

/-- An operation, and what is done with its response. -/
theorem Secures.perform_bind {post : β → σ → Prop} {o : ω} {f : ρ o → Program ω ρ ε β}
    (h : ∀ t, rely s t → rely t (interpret o t).2 ∧
      ∀ r, (interpret o t).1 = .ok r → (f r).Secures interpret rely post (interpret o t).2) :
    ((Program.perform o : Program ω ρ ε (ρ o)) >>= f).Secures interpret rely post s := h

theorem Secures.orFail_bind {post : β → σ → Prop} {a : Option α} {e : ε}
    {f : α → Program ω ρ ε β} (h : ∀ b, a = some b → (f b).Secures interpret rely post s) :
    ((Program.orFail a e : Program ω ρ ε α) >>= f).Secures interpret rely post s := by
  cases a with
  | none => trivial
  | some b => exact h b rfl

/-- What is left of a program secures what the program secures. -/
theorem Secures.advance {post : α → σ → Prop} {o : ω} {k : ρ o → Program ω ρ ε α}
    (hrefl : ∀ s, rely s s) (h : (call o k).Secures interpret rely post s) :
    rely s (interpret o s).2 ∧ ((call o k).advance interpret s).1.Secures interpret rely post
      ((call o k).advance interpret s).2 := by
  obtain ⟨hmove, hrest⟩ := h s (hrefl s)
  refine ⟨hmove, ?_⟩
  rw [advance_call_snd]
  obtain ⟨r, hr, hnext⟩ | ⟨e, hnext⟩ := advance_call_fst interpret o k s
  · rw [hnext]
    exact hrest r hr
  · rw [hnext]
    trivial

/-- The operation responds with `r` somewhere, and `l` is what is known then. -/
def Learns (interpret : Interpreter ω ρ ε σ) (learn : ω → σ → κ → κ) (o : ω) (k : κ) (r : ρ o)
    (l : κ) : Prop :=
  ∃ s, (interpret o s).1 = .ok r ∧ l = learn o s k

/-- What is left of a program obeys what the program obeys, with what its response tells. -/
theorem Obeys.advance {learn : ω → σ → κ → κ} {ok : ω → κ → Prop} {o : ω}
    {k : ρ o → Program ω ρ ε α} {l : κ}
    (h : (call o k).Obeys (Learns interpret learn) ok (fun _ _ => True) l) (s : σ) :
    ((call o k).advance interpret s).1.Obeys (Learns interpret learn) ok (fun _ _ => True)
      (learn o s l) := by
  obtain ⟨r, hr, hnext⟩ | ⟨e, hnext⟩ := advance_call_fst interpret o k s
  · rw [hnext]
    exact h.2 r _ ⟨s, hr, rfl⟩
  · rw [hnext]
    trivial

end Program

/-! ## The jobs -/

/-- The elements of a list with one more at its end. -/
theorem getElem?_concat_cases {l : List α} {a b : α} {i : Nat} (h : (l ++ [a])[i]? = some b) :
    l[i]? = some b ∨ i = l.length ∧ b = a := by
  rw [List.getElem?_append] at h
  split_ifs at h with hi
  · exact .inl h
  · obtain ⟨hlt, hget⟩ := List.getElem?_eq_some_iff.mp h
    simp only [List.length_singleton, Nat.lt_one_iff] at hlt
    refine .inr ⟨by omega, ?_⟩
    simpa [hlt] using hget.symm

/-- The elements of a list with one replaced. -/
theorem getElem?_set_cases {l : List α} {a b : α} {i j : Nat} (h : (l.set i a)[j]? = some b) :
    i = j ∧ b = a ∨ i ≠ j ∧ l[j]? = some b := by
  rw [List.getElem?_set] at h
  split_ifs at h with hij hlt
  · exact .inl ⟨hij, (Option.some.inj h).symm⟩
  · exact .inr ⟨hij, h⟩

/-- A job, and what is left of its program. -/
structure RunningJob (γ : Type) (ω : Type) (ρ : ω → Type) (ε α : Type) where
  job : γ
  program : Program ω ρ ε α

/-- The state, and every job that has been started. -/
structure Jobs (γ : Type) (ω : Type) (ρ : ω → Type) (ε α σ : Type) where
  state : σ
  running : List (RunningJob γ ω ρ ε α)

inductive JobEvent (η γ ε : Type) where
  | environment (e : η)
  | start (job : γ)
  | advance (i : Nat)
  | lose (i : Nat) (e : ε)
  deriving DecidableEq, Repr

namespace Jobs

section

variable (program : γ → Program ω ρ ε α) (interpret : Interpreter ω ρ ε σ)
  (environment : σ → η → Option σ)

/-- The environment moves, a job starts, or the `i`-th job performs its next operation or fails
before it. -/
def step (s : Jobs γ ω ρ ε α σ) : JobEvent η γ ε → Option (Jobs γ ω ρ ε α σ)
  | .environment e => (environment s.state e).map fun state => { s with state := state }
  | .start job => some { s with running := s.running ++ [⟨job, program job⟩] }
  | .advance i =>
    match s.running[i]? with
    | none => none
    | some running =>
      let next := running.program.advance interpret s.state
      if running.program.next?.isSome then
        some ⟨next.2, s.running.set i ⟨running.job, next.1⟩⟩
      else none
  | .lose i e =>
    match s.running[i]? with
    | none => none
    | some running =>
      if running.program.next?.isSome then
        some { s with running := s.running.set i ⟨running.job, .fail e⟩ }
      else none

end

variable {program : γ → Program ω ρ ε α} {interpret : Interpreter ω ρ ε σ}
  {environment : σ → η → Option σ} {s t : Jobs γ ω ρ ε α σ}

theorem environment_step {e : η} : step program interpret environment s (.environment e) = some t ↔
    ∃ state, environment s.state e = some state ∧ t = { s with state := state } := by
  simp [step, eq_comm]

theorem start_step {job : γ} : step program interpret environment s (.start job) = some t ↔
    t = { s with running := s.running ++ [⟨job, program job⟩] } := by
  simp [step, eq_comm]

theorem advance_step {i : Nat} : step program interpret environment s (.advance i) = some t ↔
    ∃ running o k, s.running[i]? = some running ∧ running.program = .call o k ∧
      t = ⟨(running.program.advance interpret s.state).2,
        s.running.set i ⟨running.job, (running.program.advance interpret s.state).1⟩⟩ := by
  cases hi : s.running[i]? with
  | none => simp [step, hi]
  | some running =>
    cases hp : running.program <;> simp [step, hi, hp, Program.next?, eq_comm]

theorem lose_step {i : Nat} {e : ε} : step program interpret environment s (.lose i e) = some t ↔
    ∃ running o k, s.running[i]? = some running ∧ running.program = .call o k ∧
      t = { s with running := s.running.set i ⟨running.job, .fail e⟩ } := by
  cases hi : s.running[i]? with
  | none => simp [step, hi]
  | some running =>
    cases hp : running.program <;> simp [step, hi, hp, Program.next?, eq_comm]

/-- The jobs issue what their programs issue, with responses that `interpret` can give. -/
theorem issues_step_of {can : (o : ω) → ρ o → Prop} (ok : γ → ω → Prop) {event : JobEvent η γ ε}
    (hcan : ∀ o s r, (interpret o s).1 = .ok r → can o r)
    (hprogram : ∀ job, (program job).Issues can (ok job))
    (h : ∀ running ∈ s.running, running.program.Issues can (ok running.job))
    (hstep : step program interpret environment s event = some t) :
    ∀ running ∈ t.running, running.program.Issues can (ok running.job) := by
  cases event with
  | environment e =>
    obtain ⟨state, -, rfl⟩ := environment_step.mp hstep
    exact h
  | start job =>
    obtain rfl := start_step.mp hstep
    intro running hrunning
    obtain hrunning | hrunning := List.mem_append.mp hrunning
    · exact h running hrunning
    · obtain rfl := List.mem_singleton.mp hrunning
      exact hprogram job
  | advance i =>
    obtain ⟨running, o, k, hi, -, rfl⟩ := advance_step.mp hstep
    intro other hother
    obtain hother | rfl := List.mem_or_eq_of_mem_set hother
    · exact h other hother
    · exact (h running (List.mem_of_getElem? hi)).advance interpret s.state
        fun o r _ hr => hcan o s.state r hr
  | lose i e =>
    obtain ⟨running, o, k, hi, -, rfl⟩ := lose_step.mp hstep
    intro other hother
    obtain hother | rfl := List.mem_or_eq_of_mem_set hother
    · exact h other hother
    · trivial

/-- The jobs issue what their programs issue. -/
theorem issues_step (ok : γ → ω → Prop) {event : JobEvent η γ ε}
    (hprogram : ∀ job, (program job).Issues (fun _ _ => True) (ok job))
    (h : ∀ running ∈ s.running, running.program.Issues (fun _ _ => True) (ok running.job))
    (hstep : step program interpret environment s event = some t) :
    ∀ running ∈ t.running, running.program.Issues (fun _ _ => True) (ok running.job) :=
  issues_step_of ok (fun _ _ _ _ => trivial) hprogram h hstep

/-- Every job secures its postcondition, which may depend on its place. -/
def Secured (interpret : Interpreter ω ρ ε σ) (rely : σ → σ → Prop)
    (post : Nat → γ → α → σ → Prop) (s : Jobs γ ω ρ ε α σ) : Prop :=
  ∀ (i : Nat) (running : RunningJob γ ω ρ ε α), s.running[i]? = some running →
    running.program.Secures interpret rely (post i running.job) s.state

/-- Jobs that secure their postconditions move the state as the rely says, and what is left of
them secures the same. -/
theorem secured_step {rely : σ → σ → Prop} {post : Nat → γ → α → σ → Prop}
    {event : JobEvent η γ ε} (hrefl : ∀ s, rely s s)
    (htrans : ∀ s t u, rely s t → rely t u → rely s u) (h : s.Secured interpret rely post)
    (henvironment : ∀ e t, event = .environment e → environment s.state e = some t →
      rely s.state t)
    (hstart : ∀ job, event = .start job →
      (program job).Secures interpret rely (post s.running.length job) s.state)
    (hstep : step program interpret environment s event = some t) :
    rely s.state t.state ∧ t.Secured interpret rely post := by
  cases event with
  | environment e =>
    obtain ⟨state, he, rfl⟩ := environment_step.mp hstep
    have hrely := henvironment e state rfl he
    exact ⟨hrely, fun i running hi => (h i running hi).stable htrans hrely⟩
  | start job =>
    obtain rfl := start_step.mp hstep
    refine ⟨hrefl _, fun i running hi => ?_⟩
    obtain hi | ⟨rfl, rfl⟩ := getElem?_concat_cases hi
    · exact h i running hi
    · exact hstart job rfl
  | advance j =>
    obtain ⟨moved, o, k, hj, hprogram, rfl⟩ := advance_step.mp hstep
    have hmoved := h j moved hj
    rw [hprogram] at hmoved
    obtain ⟨hrely, hnext⟩ := hmoved.advance hrefl
    rw [hprogram]
    refine ⟨by rwa [Program.advance_call_snd], fun i running hi => ?_⟩
    obtain ⟨rfl, rfl⟩ | ⟨-, hi⟩ := getElem?_set_cases hi
    · exact hnext
    · refine (h i running hi).stable htrans ?_
      rwa [Program.advance_call_snd]
  | lose j e =>
    obtain ⟨moved, o, k, hj, -, rfl⟩ := lose_step.mp hstep
    refine ⟨hrefl _, fun i running hi => ?_⟩
    obtain ⟨rfl, rfl⟩ | ⟨-, hi⟩ := getElem?_set_cases hi
    · trivial
    · exact h i running hi

/-! ### What the jobs have learnt -/

/-- What is known at each place when the jobs have made a step. -/
def learnt (learn : ω → σ → κ → κ) (k : Nat → κ) (s : Jobs γ ω ρ ε α σ) (event : JobEvent η γ ε)
    (_ : Jobs γ ω ρ ε α σ) : Nat → κ :=
  match event with
  | .advance i =>
    match s.running[i]?.bind (·.program.next?) with
    | some o => Function.update k i (learn o s.state (k i))
    | none => k
  | _ => k

/-- Every job issues only what its record allows. -/
def Obeys (interpret : Interpreter ω ρ ε σ) (learn : ω → σ → κ → κ) (ok : γ → ω → κ → Prop)
    (s : Jobs γ ω ρ ε α σ) (k : Nat → κ) : Prop :=
  ∀ (i : Nat) (running : RunningJob γ ω ρ ε α), s.running[i]? = some running →
    running.program.Obeys (Program.Learns interpret learn) (ok running.job) (fun _ _ => True) (k i)

variable {learn : ω → σ → κ → κ} {ok : γ → ω → κ → Prop} {k : Nat → κ}

/-- The record of a job that moves is all that changes of the records. -/
theorem obeys_step {event : JobEvent η γ ε} (h : s.Obeys interpret learn ok k)
    (hprogram : ∀ job l, (program job).Obeys (Program.Learns interpret learn) (ok job)
      (fun _ _ => True) l)
    (hstep : step program interpret environment s event = some t) :
    t.Obeys interpret learn ok (learnt learn k s event t) := by
  cases event with
  | environment e =>
    obtain ⟨state, -, rfl⟩ := environment_step.mp hstep
    exact h
  | start job =>
    obtain rfl := start_step.mp hstep
    intro i running hi
    obtain hi | ⟨rfl, rfl⟩ := getElem?_concat_cases hi
    · exact h i running hi
    · exact hprogram job _
  | advance j =>
    obtain ⟨moved, o, rest, hj, hmoved, rfl⟩ := advance_step.mp hstep
    have hobeys := h j moved hj
    rw [hmoved] at hobeys
    intro i running hi
    simp only [learnt, hj, hmoved, Option.bind_some, Program.next?]
    obtain ⟨rfl, rfl⟩ | ⟨hij, hi⟩ := getElem?_set_cases hi
    · rw [Function.update_self]
      dsimp only
      rw [hmoved]
      exact hobeys.advance s.state
    · rw [Function.update_of_ne (Ne.symm hij)]
      exact h i running hi
  | lose j e =>
    obtain ⟨moved, o, rest, hj, -, rfl⟩ := lose_step.mp hstep
    intro i running hi
    obtain ⟨rfl, rfl⟩ | ⟨-, hi⟩ := getElem?_set_cases hi
    · trivial
    · exact h i running hi

end Jobs

end Lib
