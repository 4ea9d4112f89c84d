import Mathlib.Tactic.Common

/-!
# Programs over operations

A program either ends, with a value or a failure, or calls an operation and goes on with its
response. Programs are data: they say which operations they issue, and an interpreter decides
what an operation does to the state. Several programs that run at once are interleaved one
operation at a time.

## Main definitions

* `Program` — programs over operations `ω`, where the response to `o` is a `ρ o`.
* `Program.advance` — perform the next operation of a program.
* `Program.Issues` — every operation the program can issue, and the responses it counts on.
* `Program.EachCall` — every operation it issues when it runs alone, and the state before it.
* `Program.Obeys` — every operation it can issue, and a state that goes on with the responses.

`Issues.bind` and `Issues.advance` are the rules for sequences and for steps.
-/

namespace Lib

/-- A program over operations `ω` with responses `ρ` that returns an `α` or fails with an `ε`. -/
inductive Program (ω : Type) (ρ : ω → Type) (ε α : Type) where
  | done (a : α)
  | fail (e : ε)
  | call (o : ω) (k : ρ o → Program ω ρ ε α)

/-- What an operation does to a state of type `σ`. -/
abbrev Interpreter (ω : Type) (ρ : ω → Type) (ε σ : Type) :=
  (o : ω) → σ → Except ε (ρ o) × σ

namespace Program

variable {ω : Type} {ρ : ω → Type} {ε α β σ : Type}

protected def bind : Program ω ρ ε α → (α → Program ω ρ ε β) → Program ω ρ ε β
  | done a, f => f a
  | fail e, _ => fail e
  | call o k, f => call o fun r => (k r).bind f

instance : Monad (Program ω ρ ε) where
  pure := done
  bind := Program.bind

/-- Issue one operation and return its response. -/
def perform (o : ω) : Program ω ρ ε (ρ o) := call o done

/-- The value of an option, or a failure. -/
def orFail (a : Option α) (e : ε) : Program ω ρ ε α :=
  match a with
  | some a => done a
  | none => fail e

@[simp] theorem pure_eq (a : α) : (pure a : Program ω ρ ε α) = done a := rfl
@[simp] theorem done_bind (a : α) (f : α → Program ω ρ ε β) : (done a >>= f) = f a := rfl
@[simp] theorem fail_bind (e : ε) (f : α → Program ω ρ ε β) :
    ((fail e : Program ω ρ ε α) >>= f) = fail e := rfl
@[simp] theorem call_bind (o : ω) (k : ρ o → Program ω ρ ε α) (f : α → Program ω ρ ε β) :
    (call o k >>= f) = call o fun r => k r >>= f := rfl
@[simp] theorem perform_bind (o : ω) (f : ρ o → Program ω ρ ε β) :
    (perform o >>= f) = call o f := rfl
@[simp] theorem orFail_some (a : α) (e : ε) : (orFail (some a) e : Program ω ρ ε α) = done a := rfl
@[simp] theorem orFail_none (e : ε) : (orFail none e : Program ω ρ ε α) = fail e := rfl

theorem bind_assoc {γ : Type} (p : Program ω ρ ε α) (f : α → Program ω ρ ε β)
    (g : β → Program ω ρ ε γ) : (p >>= f) >>= g = p >>= fun a => f a >>= g := by
  induction p with
  | done a => rfl
  | fail e => rfl
  | call o k ih => exact congrArg (call o) (funext ih)

/-- The operation the program issues next. -/
def next? : Program ω ρ ε α → Option ω
  | done _ => none
  | fail _ => none
  | call o _ => some o

/-- Perform the next operation: the program that is left, and the state. -/
def advance (perform : Interpreter ω ρ ε σ) : Program ω ρ ε α → σ → Program ω ρ ε α × σ
  | done a, s => (done a, s)
  | fail e, s => (fail e, s)
  | call o k, s =>
    match perform o s with
    | (.ok r, t) => (k r, t)
    | (.error e, t) => (fail e, t)

@[simp] theorem advance_call_snd (perform : Interpreter ω ρ ε σ) (o : ω)
    (k : ρ o → Program ω ρ ε α) (s : σ) : ((call o k).advance perform s).2 = (perform o s).2 := by
  rcases h : perform o s with ⟨e | r, t⟩ <;> simp [advance, h]

/-- What is left after one operation: its continuation, unless the operation failed. -/
theorem advance_call_fst (perform : Interpreter ω ρ ε σ) (o : ω) (k : ρ o → Program ω ρ ε α)
    (s : σ) : (∃ r, (perform o s).1 = .ok r ∧ ((call o k).advance perform s).1 = k r) ∨
      ∃ e, ((call o k).advance perform s).1 = fail e := by
  rcases h : perform o s with ⟨e | r, t⟩
  · exact .inr ⟨e, by simp [advance, h]⟩
  · exact .inl ⟨r, rfl, by simp [advance, h]⟩

/-- A program that has ended stays as it is. -/
theorem advance_of_next_none (perform : Interpreter ω ρ ε σ) {p : Program ω ρ ε α}
    (h : p.next? = none) (s : σ) : p.advance perform s = (p, s) := by
  cases p with
  | done a => rfl
  | fail e => rfl
  | call o k => cases h

/-- Run the program alone to its end. -/
def exec (perform : Interpreter ω ρ ε σ) : Program ω ρ ε α → σ → Except ε α × σ
  | done a, s => (.ok a, s)
  | fail e, s => (.error e, s)
  | call o k, s =>
    match perform o s with
    | (.ok r, t) => (k r).exec perform t
    | (.error e, t) => (.error e, t)

section

variable {perform : Interpreter ω ρ ε σ} {p : Program ω ρ ε α} {f : α → Program ω ρ ε β} {s t : σ}

theorem exec_bind : (p >>= f).exec perform s =
    match p.exec perform s with
    | (.ok a, t) => (f a).exec perform t
    | (.error e, t) => (.error e, t) := by
  induction p generalizing s with
  | done a => rfl
  | fail e => rfl
  | call o k ih =>
    simp only [call_bind, exec]
    rcases perform o s with ⟨e | r, t⟩
    · rfl
    · exact ih r

theorem exec_bind_of_ok {a : α} (h : p.exec perform s = (.ok a, t)) :
    (p >>= f).exec perform s = (f a).exec perform t := by
  rw [exec_bind, h]

theorem exec_bind_of_error {e : ε} (h : p.exec perform s = (.error e, t)) :
    (p >>= f).exec perform s = (.error e, t) := by
  rw [exec_bind, h]

/-- What follows a value that may be missing succeeds only with the value. -/
theorem exec_orFail_bind {o : Option α} {e : ε} {b : β}
    (h : ((orFail o e : Program ω ρ ε α) >>= f).exec perform s = (.ok b, t)) :
    ∃ a, o = some a ∧ (f a).exec perform s = (.ok b, t) := by
  cases o with
  | none =>
    rw [orFail_none, fail_bind] at h
    cases congrArg Prod.fst h
  | some a => exact ⟨a, rfl, h⟩

/-- A program of one operation does what the operation does. -/
theorem exec_perform (interpret : Interpreter ω ρ ε σ) (o : ω) (s : σ) :
    (Program.perform o : Program ω ρ ε (ρ o)).exec interpret s = interpret o s := by
  unfold Program.perform
  rw [exec]
  rcases interpret o s with ⟨e | r, t⟩ <;> rfl

@[simp] theorem exec_done (a : α) :
    (done a : Program ω ρ ε α).exec perform s = (.ok a, s) := rfl
@[simp] theorem exec_fail (e : ε) :
    (fail e : Program ω ρ ε α).exec perform s = (.error e, s) := rfl

end

/-! ## The operations a program can issue -/

/-- Every operation that the program can issue meets `ok`, as long as the responses are ones that
it `can` get. -/
def Issues (can : (o : ω) → ρ o → Prop) (ok : ω → Prop) : Program ω ρ ε α → Prop
  | done _ => True
  | fail _ => True
  | call o k => ok o ∧ ∀ r, can o r → (k r).Issues can ok

variable {can : (o : ω) → ρ o → Prop} {ok : ω → Prop}

@[simp] theorem issues_done (a : α) : (done a : Program ω ρ ε α).Issues can ok := trivial
@[simp] theorem issues_fail (e : ε) : (fail e : Program ω ρ ε α).Issues can ok := trivial
@[simp] theorem issues_call (o : ω) (k : ρ o → Program ω ρ ε α) :
    (call o k).Issues can ok ↔ ok o ∧ ∀ r, can o r → (k r).Issues can ok := .rfl

theorem Issues.bind {p : Program ω ρ ε α} {f : α → Program ω ρ ε β} (hp : p.Issues can ok)
    (hf : ∀ a, (f a).Issues can ok) : (p >>= f).Issues can ok := by
  induction p with
  | done a => exact hf a
  | fail e => trivial
  | call o k ih => exact ⟨hp.1, fun r hr => ih r (hp.2 r hr)⟩

theorem Issues.mono {ok' : ω → Prop} (hok : ∀ o, ok o → ok' o) {p : Program ω ρ ε α}
    (h : p.Issues can ok) : p.Issues can ok' := by
  induction p with
  | done a => trivial
  | fail e => trivial
  | call o k ih => exact ⟨hok o h.1, fun r hr => ih r (h.2 r hr)⟩

/-- An operation, and what is done with its response. -/
theorem Issues.perform_bind {o : ω} {f : ρ o → Program ω ρ ε β} (ho : ok o)
    (hf : ∀ r, can o r → (f r).Issues can ok) :
    ((Program.perform o : Program ω ρ ε (ρ o)) >>= f).Issues can ok := ⟨ho, hf⟩

theorem Issues.orFail (a : Option α) (e : ε) :
    (Program.orFail a e : Program ω ρ ε α).Issues can ok := by
  cases a <;> trivial

/-- What is left of a program issues what the program issues. -/
theorem Issues.advance {p : Program ω ρ ε α} (h : p.Issues can ok)
    (perform : Interpreter ω ρ ε σ) (s : σ)
    (hcan : ∀ o r, p.next? = some o → (perform o s).1 = .ok r → can o r) :
    (p.advance perform s).1.Issues can ok := by
  cases p with
  | done a => trivial
  | fail e => trivial
  | call o k =>
    rcases advance_call_fst perform o k s with ⟨r, hr, hnext⟩ | ⟨e, hnext⟩
    · rw [hnext]
      exact h.2 r (hcan o r rfl hr)
    · rw [hnext]
      trivial

theorem Issues.next {p : Program ω ρ ε α} (h : p.Issues can ok) {o : ω} (ho : p.next? = some o) :
    ok o := by
  cases p with
  | done a => cases ho
  | fail e => cases ho
  | call o' k =>
    obtain rfl := Option.some.inj ho
    exact h.1

/-! ## The operations of one run -/

/-- Every operation that the program issues when it runs alone meets `ok`, a condition on the
operation and the state before it. -/
def EachCall (perform : Interpreter ω ρ ε σ) (ok : ω → σ → Prop) : Program ω ρ ε α → σ → Prop
  | done _, _ => True
  | fail _, _ => True
  | call o k, s => ok o s ∧ ∀ r t, perform o s = (.ok r, t) → (k r).EachCall perform ok t

variable {perform : Interpreter ω ρ ε σ} {okAt : ω → σ → Prop} {s : σ}

@[simp] theorem eachCall_done (a : α) : (done a : Program ω ρ ε α).EachCall perform okAt s :=
  trivial
@[simp] theorem eachCall_fail (e : ε) : (fail e : Program ω ρ ε α).EachCall perform okAt s :=
  trivial
theorem eachCall_call (o : ω) (k : ρ o → Program ω ρ ε α) :
    (call o k).EachCall perform okAt s ↔
      okAt o s ∧ ∀ r t, perform o s = (.ok r, t) → (k r).EachCall perform okAt t := .rfl

theorem EachCall.mono {okAt' : ω → σ → Prop} (hok : ∀ o t, okAt o t → okAt' o t)
    {p : Program ω ρ ε α} (h : p.EachCall perform okAt s) : p.EachCall perform okAt' s := by
  induction p generalizing s with
  | done a => trivial
  | fail e => trivial
  | call o k ih => exact ⟨hok o s h.1, fun r t ht => ih r (h.2 r t ht)⟩

/-- What every operation of a run keeps, the run keeps. -/
theorem EachCall.keeps {γ : Type} {view : σ → γ} {p : Program ω ρ ε α}
    (h : p.EachCall perform okAt s) (hview : ∀ o t, okAt o t → view (perform o t).2 = view t) :
    view (p.exec perform s).2 = view s := by
  induction p generalizing s with
  | done a => rfl
  | fail e => rfl
  | call o k ih =>
    have hfirst := hview o s h.1
    rw [exec]
    rcases hr : perform o s with ⟨e | r, t⟩
    · rw [hr] at hfirst
      exact hfirst
    · rw [hr] at hfirst
      exact (ih r (h.2 r t hr)).trans hfirst

theorem eachCall_bind {p : Program ω ρ ε α} {f : α → Program ω ρ ε β} :
    (p >>= f).EachCall perform okAt s ↔ p.EachCall perform okAt s ∧
      ∀ a t, p.exec perform s = (.ok a, t) → (f a).EachCall perform okAt t := by
  induction p generalizing s with
  | done a =>
    rw [done_bind]
    refine ⟨fun h => ⟨trivial, fun b t hdone => ?_⟩, fun h => h.2 a s rfl⟩
    obtain ⟨rfl, rfl⟩ : a = b ∧ s = t := by simpa using hdone
    exact h
  | fail e => simp
  | call o k ih =>
    rw [call_bind, eachCall_call, eachCall_call, and_assoc]
    refine and_congr_right fun _ => ?_
    constructor
    · intro h
      refine ⟨fun r t hr => (ih r).mp (h r t hr) |>.1, fun a u hexec => ?_⟩
      rw [exec] at hexec
      rcases hr : perform o s with ⟨e | r, t⟩
      · simp [hr] at hexec
      · rw [hr] at hexec
        exact ((ih r).mp (h r t hr)).2 a u hexec
    · intro ⟨hfirst, hrest⟩ r t hr
      refine (ih r).mpr ⟨hfirst r t hr, fun a u hexec => hrest a u ?_⟩
      rw [exec, hr]
      exact hexec

theorem eachCall_perform {o : ω} :
    (Program.perform o : Program ω ρ ε (ρ o)).EachCall perform okAt s ↔ okAt o s :=
  and_iff_left fun _ _ _ => trivial

@[simp] theorem eachCall_orFail (a : Option α) (e : ε) :
    (Program.orFail a e : Program ω ρ ε α).EachCall perform okAt s := by
  cases a <;> trivial

/-! ## What a program issues as the state goes on -/

/-- Whatever responses and states `next` allows, every operation that the program issues meets `ok` in
the state before it, and `Q` holds at the end. -/
def Obeys (next : (o : ω) → σ → ρ o → σ → Prop) (ok : ω → σ → Prop) :
    Program ω ρ ε α → (Except ε α → σ → Prop) → σ → Prop
  | done a, Q, s => Q (.ok a) s
  | fail e, Q, s => Q (.error e) s
  | call o k, Q, s => ok o s ∧ ∀ r t, next o s r t → (k r).Obeys next ok Q t

section

variable {next : (o : ω) → σ → ρ o → σ → Prop} {ok : ω → σ → Prop} {p : Program ω ρ ε α} {s : σ}

theorem Obeys.mono {Q Q' : Except ε α → σ → Prop} (h : p.Obeys next ok Q s)
    (hQ : ∀ outcome t, Q outcome t → Q' outcome t) : p.Obeys next ok Q' s := by
  induction p generalizing s with
  | done a => exact hQ _ _ h
  | fail e => exact hQ _ _ h
  | call o k ih => exact ⟨h.1, fun r t ht => ih r (h.2 r t ht)⟩

theorem Obeys.bind {f : α → Program ω ρ ε β} {Q : Except ε β → σ → Prop}
    (h : p.Obeys next ok (fun
      | .ok a => (f a).Obeys next ok Q
      | .error e => Q (.error e)) s) : (p >>= f).Obeys next ok Q s := by
  induction p generalizing s with
  | done a => exact h
  | fail e => exact h
  | call o k ih => exact ⟨h.1, fun r t ht => ih r (h.2 r t ht)⟩

/-- An operation, and what is done with its response. -/
theorem Obeys.perform_bind {o : ω} {f : ρ o → Program ω ρ ε β} {Q : Except ε β → σ → Prop}
    (ho : ok o s) (hf : ∀ r t, next o s r t → (f r).Obeys next ok Q t) :
    ((Program.perform o : Program ω ρ ε (ρ o)) >>= f).Obeys next ok Q s := ⟨ho, hf⟩

/-- What is issued is allowed as long as an invariant holds that every such operation keeps. -/
theorem Issues.obeys {can : (o : ω) → ρ o → Prop} {issued : ω → Prop} {A : σ → Prop}
    (h : p.Issues can issued) (hok : ∀ o s, issued o → A s → ok o s)
    (hkeep : ∀ o s r t, issued o → A s → next o s r t → can o r ∧ A t) (hs : A s) :
    p.Obeys next ok (fun _ t => A t) s := by
  induction p generalizing s with
  | done a => exact hs
  | fail e => exact hs
  | call o k ih =>
    refine ⟨hok o s h.1 hs, fun r t ht => ?_⟩
    obtain ⟨hcan, hA⟩ := hkeep o s r t h.1 hs ht
    exact ih r (h.2 r hcan) hA

end

end Program

end Lib
