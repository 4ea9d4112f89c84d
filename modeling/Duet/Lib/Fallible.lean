import Duet.Lib.Program

/-!
# Programs that see their operations fail

In a fallible program the response to an operation is a value or a failure, and the program
decides what becomes of it: `ask` passes a failure on, `attempt` catches one. An operation that
fails may have had its effect or not.

## Main definitions

* `Fallible` — programs whose responses may be failures.
* `Fate` — what becomes of an operation; `Fate.apply` is its response and its effect.
* `Program.Always` — what holds after every operation of a program, and when it ends, whatever the
  operations do.
* `Program.Leads` — what can be left of a program after some operations.

`Always.bind`, `Always.attempt` and `Always.ask` are the rules; `Always.step` is what remains after
one operation, so that `Always` is an invariant of a process that may be stopped anywhere.
-/

namespace Lib

/-- A program whose operations may fail under its eyes. -/
abbrev Fallible (ω : Type) (ρ : ω → Type) (ε α : Type) :=
  Program ω (fun o => Except ε (ρ o)) ε α

namespace Fallible

variable {ω ω' : Type} {ρ : ω → Type} {ρ' : ω' → Type} {ε α β : Type}

/-- Issue an operation; its failure is the program's. -/
def ask (o : ω) : Fallible ω ρ ε (ρ o) :=
  .call o fun
    | .ok a => .done a
    | .error e => .fail e

/-- Run a program and return its outcome, failures included. -/
def attempt : Fallible ω ρ ε α → Fallible ω ρ ε (Except ε α)
  | .done a => .done (.ok a)
  | .fail e => .done (.error e)
  | .call o k => .call o fun r => attempt (k r)

/-- A program over some of the operations; a failed operation ends it. -/
def lift (embed : ω' → ω) (respond : ∀ o, ρ (embed o) → ρ' o) :
    Program ω' ρ' ε α → Fallible ω ρ ε α
  | .done a => .done a
  | .fail e => .fail e
  | .call o k => .call (embed o) fun
    | .ok a => lift embed respond (k (respond o a))
    | .error e => .fail e

theorem lift_bind {embed : ω' → ω} {respond : ∀ o, ρ (embed o) → ρ' o} (p : Program ω' ρ' ε α)
    (f : α → Program ω' ρ' ε β) : (lift embed respond (p >>= f) : Fallible ω ρ ε β) =
      lift embed respond p >>= fun a => lift embed respond (f a) := by
  induction p with
  | done a => rfl
  | fail e => rfl
  | call o k ih =>
    rw [Program.call_bind, lift, lift, Program.call_bind]
    congr 1
    funext r
    cases r with
    | ok a => exact ih _
    | error e => rfl

/-- One operation, lifted. -/
theorem lift_perform {embed : ω' → ω} {respond : ∀ o, ρ (embed o) → ρ' o} (o : ω') :
    (lift embed respond (Program.perform o) : Fallible ω ρ ε (ρ' o)) = .call (embed o) fun
      | .ok a => .done (respond o a)
      | .error e => .fail e := by
  rw [Program.perform, lift]
  rfl

end Fallible

/-! ## Runs without faults -/

namespace Fallible

variable {ω ω' : Type} {ρ : ω → Type} {ρ' : ω' → Type} {ε α β σ σ' : Type}

/-- The interpretation in which every operation is performed. -/
def interpret (perform : (o : ω) → σ → Except ε (ρ o) × σ) :
    Interpreter ω (fun o => Except ε (ρ o)) ε σ :=
  fun o s => (.ok (perform o s).1, (perform o s).2)

variable {perform : (o : ω) → σ → Except ε (ρ o) × σ} {s : σ}

open Program

theorem exec_ask (o : ω) : (ask o : Fallible ω ρ ε (ρ o)).exec (interpret perform) s =
    perform o s := by
  rcases h : perform o s with ⟨e | a, t⟩ <;> simp [ask, exec, interpret, h]

theorem exec_ask_bind (o : ω) (f : ρ o → Fallible ω ρ ε β) :
    (ask o >>= f).exec (interpret perform) s =
      match perform o s with
      | (.ok a, t) => (f a).exec (interpret perform) t
      | (.error e, t) => (.error e, t) := by
  rw [exec_bind, exec_ask]
  rcases perform o s with ⟨e | a, t⟩ <;> rfl

@[simp] theorem exec_attempt (p : Fallible ω ρ ε α) :
    (attempt p).exec (interpret perform) s =
      (.ok (p.exec (interpret perform) s).1, (p.exec (interpret perform) s).2) := by
  induction p generalizing s with
  | done a => rfl
  | fail e => rfl
  | call o k ih => exact ih _

/-- A lifted program runs as it does on the part of the state it is about. -/
theorem exec_lift {embed : ω' → ω} {respond : ∀ o, ρ (embed o) → ρ' o}
    {perform' : Interpreter ω' ρ' ε σ'} (part : σ → σ') (put : σ → σ' → σ)
    (hput : ∀ s t, part (put s t) = t) (hputput : ∀ s t u, put (put s t) u = put s u)
    (hself : ∀ s, put s (part s) = s)
    (hperform : ∀ o s, ((perform (embed o) s).1.map (respond o), (perform (embed o) s).2) =
      ((perform' o (part s)).1, put s (perform' o (part s)).2)) (p : Program ω' ρ' ε α) :
    (lift embed respond p).exec (interpret perform) s =
      ((p.exec perform' (part s)).1, put s (p.exec perform' (part s)).2) := by
  induction p generalizing s with
  | done a => simp [lift, hself]
  | fail e => simp [lift, hself]
  | call o k ih =>
    have h := hperform o s
    simp only [lift, exec, interpret]
    rcases hp : perform (embed o) s with ⟨e | a, t⟩ <;>
      rcases hp' : perform' o (part s) with ⟨e' | b, t'⟩ <;>
      simp only [hp, hp', Except.map, Prod.mk.injEq, reduceCtorEq, false_and,
        Except.error.injEq, Except.ok.injEq] at h
    · obtain ⟨rfl, rfl⟩ := h
      rfl
    · obtain ⟨rfl, rfl⟩ := h
      simp only
      rw [ih, hput, hputput]

variable {okAt : ω → σ → Prop}

theorem eachCall_ask_bind {o : ω} {f : ρ o → Fallible ω ρ ε β} :
    (ask o >>= f).EachCall (interpret perform) okAt s ↔
      okAt o s ∧ ∀ a t, perform o s = (.ok a, t) → (f a).EachCall (interpret perform) okAt t := by
  rw [eachCall_bind]
  refine and_congr ?_ ?_
  · refine and_iff_left fun r t _ => ?_
    cases r <;> trivial
  · simp only [exec_ask]

@[simp] theorem eachCall_attempt {p : Fallible ω ρ ε α} :
    (attempt p).EachCall (interpret perform) okAt s ↔
      p.EachCall (interpret perform) okAt s := by
  induction p generalizing s with
  | done a => exact .rfl
  | fail e => exact .rfl
  | call o k ih =>
    exact and_congr_right fun _ => forall_congr' fun r => forall_congr' fun t =>
      imp_congr_right fun _ => ih r

/-- A lifted program issues what it issues on the part of the state it is about. -/
theorem eachCall_lift {embed : ω' → ω} {respond : ∀ o, ρ (embed o) → ρ' o}
    {perform' : Interpreter ω' ρ' ε σ'} (part : σ → σ') {okAt' : ω' → σ' → Prop}
    (hok : ∀ o s, okAt (embed o) s ↔ okAt' o (part s))
    (hperform : ∀ o s, ((perform (embed o) s).1.map (respond o), part (perform (embed o) s).2) =
      perform' o (part s)) (p : Program ω' ρ' ε α) :
    (lift embed respond p).EachCall (interpret perform) okAt s ↔
      p.EachCall perform' okAt' (part s) := by
  induction p generalizing s with
  | done a => exact .rfl
  | fail e => exact .rfl
  | call o k ih =>
    have h := hperform o s
    simp only [lift, eachCall_call, hok]
    refine and_congr_right fun _ => ?_
    rcases hp : perform (embed o) s with ⟨e | a, t⟩
    · simp only [hp, Except.map] at h
      simp [interpret, hp, ← h]
    · simp only [hp, Except.map] at h
      rw [← h]
      simp only [interpret, hp, Prod.mk.injEq, Except.ok.injEq]
      constructor
      · rintro hrest r t' ⟨rfl, rfl⟩
        exact ih _ |>.mp (hrest _ _ ⟨rfl, rfl⟩)
      · rintro hrest r t' ⟨rfl, rfl⟩
        exact (ih _).mpr (hrest _ _ ⟨rfl, rfl⟩)

end Fallible

/-! ## The operations a fallible program can issue -/

namespace Program

open Fallible

variable {ω ω' : Type} {ρ : ω → Type} {ρ' : ω' → Type} {ε α β : Type}
  {can : (o : ω) → Except ε (ρ o) → Prop} {ok : ω → Prop}

theorem Issues.ask_bind {o : ω} {f : ρ o → Fallible ω ρ ε β} (ho : ok o)
    (hf : ∀ a, can o (.ok a) → (f a).Issues can ok) :
    ((Fallible.ask o : Fallible ω ρ ε (ρ o)) >>= f).Issues can ok := by
  refine ⟨ho, fun r hr => ?_⟩
  cases r with
  | ok a => exact hf a hr
  | error e => trivial

theorem Issues.ask {o : ω} (ho : ok o) : (Fallible.ask o : Fallible ω ρ ε (ρ o)).Issues can ok := by
  refine ⟨ho, fun r _ => ?_⟩
  cases r <;> trivial

theorem Issues.attempt {p : Fallible ω ρ ε α} (h : p.Issues can ok) :
    (Fallible.attempt p).Issues can ok := by
  induction p with
  | done a => trivial
  | fail e => trivial
  | call o k ih => exact ⟨h.1, fun r hr => ih r (h.2 r hr)⟩

/-- A lifted program issues what the program issues. -/
theorem Issues.lift {embed : ω' → ω} {respond : ∀ o, ρ (embed o) → ρ' o}
    {can' : (o : ω') → ρ' o → Prop} {ok' : ω' → Prop} (hok : ∀ o, ok' o → ok (embed o))
    (hcan : ∀ o a, can (embed o) (.ok a) → can' o (respond o a)) {p : Program ω' ρ' ε α}
    (h : p.Issues can' ok') : (Fallible.lift embed respond p).Issues can ok := by
  induction p with
  | done a => trivial
  | fail e => trivial
  | call o k ih =>
    rw [Fallible.lift, issues_call]
    refine ⟨hok o h.1, fun r hr => ?_⟩
    cases r with
    | ok a => exact ih _ (h.2 _ (hcan o a hr))
    | error e => trivial

/-! ### As the state goes on -/

section

variable {σ : Type} {next : (o : ω) → σ → Except ε (ρ o) → σ → Prop} {okAt : ω → σ → Prop} {s : σ}

theorem Obeys.attempt {p : Fallible ω ρ ε α} {Q : Except ε (Except ε α) → σ → Prop}
    (h : p.Obeys next okAt (fun outcome => Q (.ok outcome)) s) :
    (Fallible.attempt p).Obeys next okAt Q s := by
  induction p generalizing s with
  | done a => exact h
  | fail e => exact h
  | call o k ih => exact ⟨h.1, fun r t ht => ih r (h.2 r t ht)⟩

theorem Obeys.ask {o : ω} {Q : Except ε (ρ o) → σ → Prop} (ho : okAt o s)
    (h : ∀ r t, next o s r t → Q r t) :
    (Fallible.ask o : Fallible ω ρ ε (ρ o)).Obeys next okAt Q s := by
  refine ⟨ho, fun r t ht => ?_⟩
  cases r with
  | ok a => exact h _ t ht
  | error e => exact h _ t ht

end

end Program

/-! ## What becomes of an operation -/

/-- An operation is performed, or fails without its effect, or fails although it had its effect. -/
inductive Fate (ε : Type) where
  | performed
  | refused (e : ε)
  | unreported (e : ε)
  deriving DecidableEq, Repr

/-- The response to an operation and the state it leaves, given what it does when performed. -/
def Fate.apply {ε ρ σ : Type} (s : σ) (result : Except ε ρ × σ) : Fate ε → Except ε ρ × σ
  | performed => result
  | refused e => (.error e, s)
  | unreported e => (.error e, result.2)

/-! ## What holds all along -/

namespace Program

variable {ω : Type} {ρ : ω → Type} {ε α β σ : Type}

/-- Whatever responses `next` allows, `I` holds after every operation and `Q` at the end. -/
def Always (next : (o : ω) → σ → ρ o → σ → Prop) (I : σ → Prop) :
    Program ω ρ ε α → (Except ε α → σ → Prop) → σ → Prop
  | done a, Q, s => Q (.ok a) s
  | fail e, Q, s => Q (.error e) s
  | call o k, Q, s => ∀ r t, next o s r t → I t ∧ (k r).Always next I Q t

variable {next : (o : ω) → σ → ρ o → σ → Prop} {I : σ → Prop} {s t : σ}

@[simp] theorem always_done {a : α} {Q : Except ε α → σ → Prop} :
    (done a : Program ω ρ ε α).Always next I Q s ↔ Q (.ok a) s := .rfl
@[simp] theorem always_fail {e : ε} {Q : Except ε α → σ → Prop} :
    (fail e : Program ω ρ ε α).Always next I Q s ↔ Q (.error e) s := .rfl

theorem Always.mono {p : Program ω ρ ε α} {I' : σ → Prop} {Q Q' : Except ε α → σ → Prop}
    (h : p.Always next I Q s) (hI : ∀ t, I t → I' t) (hQ : ∀ outcome t, Q outcome t → Q' outcome t) :
    p.Always next I' Q' s := by
  induction p generalizing s with
  | done a => exact hQ _ _ h
  | fail e => exact hQ _ _ h
  | call o k ih =>
    intro r t ht
    obtain ⟨hstep, hrest⟩ := h r t ht
    exact ⟨hI t hstep, ih r hrest⟩

/-- What every operation that a program issues keeps, it keeps all along. -/
theorem Issues.always {p : Program ω ρ ε α} {can : (o : ω) → ρ o → Prop} {ok : ω → Prop}
    (h : p.Issues can ok)
    (hkeep : ∀ o s r t, ok o → I s → next o s r t → can o r ∧ I t) (hs : I s) :
    p.Always next I (fun _ t => I t) s := by
  induction p generalizing s with
  | done a => exact hs
  | fail e => exact hs
  | call o k ih =>
    intro r t ht
    obtain ⟨hcan, hI⟩ := hkeep o s r t h.1 hs ht
    exact ⟨hI, ih r (h.2 r hcan) hI⟩

/-- A sequence: what holds when the first part ends decides about the rest. -/
theorem Always.bind {p : Program ω ρ ε α} {f : α → Program ω ρ ε β}
    {Q : Except ε β → σ → Prop}
    (h : p.Always next I (fun
      | .ok a => (f a).Always next I Q
      | .error e => Q (.error e)) s) : (p >>= f).Always next I Q s := by
  induction p generalizing s with
  | done a => exact h
  | fail e => exact h
  | call o k ih =>
    intro r t ht
    obtain ⟨hI, hrest⟩ := h r t ht
    exact ⟨hI, ih r hrest⟩

/-- What is left after one operation. -/
theorem Always.step {o : ω} {k : ρ o → Program ω ρ ε α} {Q : Except ε α → σ → Prop} {r : ρ o}
    (h : (call o k).Always next I Q s) (hnext : next o s r t) :
    I t ∧ (k r).Always next I Q t := h r t hnext

end Program

namespace Program

open Fallible

variable {ω : Type} {ρ : ω → Type} {ε α σ : Type}
  {next : (o : ω) → σ → Except ε (ρ o) → σ → Prop} {I : σ → Prop} {s : σ}

theorem Always.attempt {p : Fallible ω ρ ε α} {Q : Except ε (Except ε α) → σ → Prop}
    (h : p.Always next I (fun outcome => Q (.ok outcome)) s) :
    (Fallible.attempt p).Always next I Q s := by
  induction p generalizing s with
  | done a => exact h
  | fail e => exact h
  | call o k ih =>
    intro r t ht
    obtain ⟨hI, hrest⟩ := h r t ht
    exact ⟨hI, ih r hrest⟩

theorem Always.ask {o : ω} {Q : Except ε (ρ o) → σ → Prop}
    (h : ∀ r t, next o s r t → I t ∧ Q r t) :
    (Fallible.ask o : Fallible ω ρ ε (ρ o)).Always next I Q s := by
  intro r t ht
  obtain ⟨hI, hQ⟩ := h r t ht
  refine ⟨hI, ?_⟩
  cases r with
  | ok a => exact hQ
  | error e => exact hQ

/-! ### Invariants with a postcondition -/

/-- A value is in `B`, a failure leaves a state in `E`. -/
def EndsIn (B : α → σ → Prop) (E : σ → Prop) : Except ε α → σ → Prop
  | .ok a => B a
  | .error _ => E

/-- The program stays in `A`, also when it ends, and it ends in `B` or fails in `E`. -/
def Upholds (next : (o : ω) → σ → Except ε (ρ o) → σ → Prop) (A : σ → Prop) (p : Fallible ω ρ ε α)
    (B : α → σ → Prop) (E : σ → Prop) (s : σ) : Prop :=
  p.Always next A (fun outcome t => A t ∧ EndsIn B E outcome t) s

variable {A : σ → Prop} {B : α → σ → Prop} {E : σ → Prop}

theorem Upholds.done {a : α} (hA : A s) (hB : B a s) :
    Upholds next A (done a : Fallible ω ρ ε α) B E s := ⟨hA, hB⟩

theorem Upholds.fail {e : ε} (hA : A s) (hE : E s) :
    Upholds next A (fail e : Fallible ω ρ ε α) B E s := ⟨hA, hE⟩

theorem Upholds.mono {p : Fallible ω ρ ε α} {A' : σ → Prop} {B' : α → σ → Prop} {E' : σ → Prop}
    (h : Upholds next A p B E s) (hA : ∀ t, A t → A' t) (hB : ∀ a t, A t → B a t → B' a t)
    (hE : ∀ t, A t → E t → E' t) : Upholds next A' p B' E' s := by
  refine Always.mono h hA fun outcome t ⟨ht, hends⟩ => ⟨hA t ht, ?_⟩
  cases outcome with
  | ok a => exact hB a t ht hends
  | error e => exact hE t ht hends

theorem Upholds.bind {β : Type} {p : Fallible ω ρ ε α} {f : α → Fallible ω ρ ε β}
    {C : β → σ → Prop} (h : Upholds next A p B E s)
    (hf : ∀ a t, A t → B a t → Upholds next A (f a) C E t) : Upholds next A (p >>= f) C E s := by
  refine Always.bind (Always.mono h (fun _ hA => hA) fun outcome t ⟨hA, hends⟩ => ?_)
  cases outcome with
  | ok a => exact hf a t hA hends
  | error e => exact ⟨hA, hends⟩

/-- A program whose failures are caught. -/
theorem Upholds.attempt {p : Fallible ω ρ ε α} {E' : σ → Prop} (h : Upholds next A p B E s) :
    Upholds next A (Fallible.attempt p) (EndsIn B E) E' s :=
  Always.attempt h

end Program

/-! ## What can happen -/

namespace Program

variable {ω : Type} {ρ : ω → Type} {ε α β σ : Type}

/-- By responses that `next` allows, `q` can be what is left of `p`, in the state `t`. -/
inductive Leads (next : (o : ω) → σ → ρ o → σ → Prop) :
    Program ω ρ ε α → σ → Program ω ρ ε α → σ → Prop where
  | refl (p : Program ω ρ ε α) (s : σ) : Leads next p s p s
  | call {o : ω} {k : ρ o → Program ω ρ ε α} {r : ρ o} {q : Program ω ρ ε α} {s t u : σ} :
    next o s r t → Leads next (k r) t q u → Leads next (call o k) s q u

variable {next : (o : ω) → σ → ρ o → σ → Prop} {p q q' : Program ω ρ ε α} {s t u : σ}

theorem Leads.trans (h : Leads next p s q t) (h' : Leads next q t q' u) :
    Leads next p s q' u := by
  induction h with
  | refl p s => exact h'
  | call hnext _ ih => exact .call hnext (ih h')

theorem Leads.bind (h : Leads next p s q t) (f : α → Program ω ρ ε β) :
    Leads next (p >>= f) s (q >>= f) t := by
  induction h with
  | refl p s => exact .refl _ _
  | call hnext _ ih => exact .call hnext ih

end Program

namespace Program

variable {ω : Type} {ρ : ω → Type} {ε α β σ : Type}
  {next : (o : ω) → σ → Except ε (ρ o) → σ → Prop} {s t u : σ}

theorem Leads.attempt {p q : Fallible ω ρ ε α} (h : Leads next p s q t) :
    Leads next (Fallible.attempt p) s (Fallible.attempt q) t := by
  induction h with
  | refl p s => exact .refl _ _
  | call hnext _ ih => exact .call hnext ih

theorem Leads.ask_bind {o : ω} {a : ρ o} {f : ρ o → Fallible ω ρ ε β} {q : Fallible ω ρ ε β}
    (h : next o s (.ok a) t) (hf : Leads next (f a) t q u) :
    Leads next (Fallible.ask o >>= f) s q u := .call h hf

theorem Leads.ask {o : ω} {a : ρ o} (h : next o s (.ok a) t) :
    Leads next (Fallible.ask o : Fallible ω ρ ε (ρ o)) s (done a) t := .call h (.refl _ _)

theorem Leads.ask_error {o : ω} {e : ε} (h : next o s (.error e) t) :
    Leads next (Fallible.ask o : Fallible ω ρ ε (ρ o)) s (fail e) t := .call h (.refl _ _)

end Program

end Lib
