import Duet.Lib.Transition
import Mathlib.Data.List.Forall2
import Mathlib.Data.List.Perm.Basic
import Mathlib.Tactic.Common

/-!
# Calls that suspend at their awaits

The calls of one isolate run on a shared state. A call runs on its own up to an `await`, where it
suspends, and other calls may run before it is resumed with what it has awaited. Killing the isolate
loses the calls, and the state keeps what survives.

## Main definitions

* `Async` — a program that updates a state and suspends at awaits.
* `Async.resume` — run it up to its next await; `Async.alone` — run it with nothing in between.
* `Isolate`, `Isolate.step` — the calls that run on a state, and their outcomes.
* `Isolate.annotate` — notes on the calls that run, kept from outside.

Every await carries a point, which says what is awaited. What a call does from one await to the next
is a segment: `Async.Follows` says that all segments of a program are as specified, whatever happens
at its awaits, and `Isolate.obeys_step` takes the steps of an isolate apart into segments.
-/

namespace Lib

/-- A program on states `σ` that returns an `α` or fails with an `ε`. What it awaits at a point of
`κ` comes back as an `ι`; `act f k` updates the state and goes on with what the state was. -/
inductive Async (κ ι σ ε α : Type) where
  | done (a : α)
  | fail (e : ε)
  | act (f : σ → σ) (k : σ → Async κ ι σ ε α)
  | await (point : κ) (k : ι → Async κ ι σ ε α)

namespace Async

variable {κ ι σ ε α β : Type}

protected def bind : Async κ ι σ ε α → (α → Async κ ι σ ε β) → Async κ ι σ ε β
  | done a, g => g a
  | fail e, _ => fail e
  | act f k, g => act f fun s => (k s).bind g
  | await point k, g => await point fun i => (k i).bind g

instance : Monad (Async κ ι σ ε) where
  pure := done
  bind := Async.bind

/-- Read the state. -/
def get : Async κ ι σ ε σ := act id done

/-- Update the state. -/
def modify (f : σ → σ) : Async κ ι σ ε Unit := act f fun _ => done ()

/-- Suspend until what is awaited comes back. -/
def suspend (point : κ) : Async κ ι σ ε ι := await point done

/-- The value of an outcome, or its failure. -/
def ofExcept : Except ε α → Async κ ι σ ε α
  | .ok a => done a
  | .error e => fail e

/-- Run a program and return its outcome, failures included. -/
def attempt : Async κ ι σ ε α → Async κ ι σ ε (Except ε α)
  | done a => done (.ok a)
  | fail e => done (.error e)
  | act f k => act f fun s => attempt (k s)
  | await point k => await point fun i => attempt (k i)

/-- Await a call: its outcome comes back once the caller is resumed. -/
def awaiting (point : κ) (p : Async κ Unit σ ε α) : Async κ Unit σ ε α := do
  let outcome ← attempt p
  let _ ← suspend point
  ofExcept outcome

/-- A program on a part of the state that runs inside one on the whole, where `serve` does what it
awaits. -/
def within {κ' ι' τ ε' : Type} (part : τ → σ) (write : τ → σ → τ) (serve : κ → Async κ' ι' τ ε' ι) :
    Async κ ι σ Empty α → Async κ' ι' τ ε' α
  | done a => done a
  | fail e => e.elim
  | act f k => act (fun s => write s (f (part s))) fun s => (k (part s)).within part write serve
  | await point k => (serve point).bind fun i => (k i).within part write serve

/-- Run up to the next await: the program that is left, and the state. -/
def resume : Async κ ι σ ε α → σ → Async κ ι σ ε α × σ
  | done a, s => (done a, s)
  | fail e, s => (fail e, s)
  | act f k, s => (k s).resume (f s)
  | await point k, s => (await point k, s)

/-- Run alone, where `input` comes back at every await. -/
def alone (input : ι) : Async κ ι σ ε α → σ → Except ε α × σ
  | done a, s => (.ok a, s)
  | fail e, s => (.error e, s)
  | act f k, s => (k s).alone input (f s)
  | await _ k, s => (k input).alone input s

section

variable {s t : σ} {input : ι}

@[simp] theorem pure_eq (a : α) : (pure a : Async κ ι σ ε α) = done a := rfl
@[simp] theorem done_bind (a : α) (g : α → Async κ ι σ ε β) : (done a >>= g) = g a := rfl
@[simp] theorem fail_bind (e : ε) (g : α → Async κ ι σ ε β) :
    ((fail e : Async κ ι σ ε α) >>= g) = fail e := rfl
@[simp] theorem suspend_bind (point : κ) (g : ι → Async κ ι σ ε β) :
    ((suspend point : Async κ ι σ ε ι) >>= g) = await point g := rfl
@[simp] theorem ofExcept_ok (a : α) : (ofExcept (.ok a) : Async κ ι σ ε α) = done a := rfl
@[simp] theorem ofExcept_error (e : ε) : (ofExcept (.error e) : Async κ ι σ ε α) = fail e := rfl

@[simp] theorem resume_done (a : α) :
    (done a : Async κ ι σ ε α).resume s = (done a, s) := rfl
@[simp] theorem resume_fail (e : ε) :
    (fail e : Async κ ι σ ε α).resume s = (fail e, s) := rfl
@[simp] theorem resume_await (point : κ) (k : ι → Async κ ι σ ε α) :
    (await point k).resume s = (await point k, s) := rfl
@[simp] theorem resume_get_bind (g : σ → Async κ ι σ ε β) :
    ((get : Async κ ι σ ε σ) >>= g).resume s = (g s).resume s := rfl
@[simp] theorem resume_modify_bind (f : σ → σ) (g : Unit → Async κ ι σ ε β) :
    ((modify f : Async κ ι σ ε Unit) >>= g).resume s = (g ()).resume (f s) := rfl

@[simp] theorem alone_done (a : α) : (done a : Async κ ι σ ε α).alone input s = (.ok a, s) := rfl
@[simp] theorem alone_fail (e : ε) :
    (fail e : Async κ ι σ ε α).alone input s = (.error e, s) := rfl
@[simp] theorem alone_await (point : κ) (k : ι → Async κ ι σ ε α) :
    (await point k).alone input s = (k input).alone input s := rfl
@[simp] theorem alone_get_bind (g : σ → Async κ ι σ ε β) :
    ((get : Async κ ι σ ε σ) >>= g).alone input s = (g s).alone input s := rfl
@[simp] theorem alone_modify_bind (f : σ → σ) (g : Unit → Async κ ι σ ε β) :
    ((modify f : Async κ ι σ ε Unit) >>= g).alone input s = (g ()).alone input (f s) := rfl

theorem alone_bind (p : Async κ ι σ ε α) (g : α → Async κ ι σ ε β) :
    (p >>= g).alone input s =
      match p.alone input s with
      | (.ok a, t) => (g a).alone input t
      | (.error e, t) => (.error e, t) := by
  induction p generalizing s with
  | done a => rfl
  | fail e => rfl
  | act f k ih => exact ih s
  | await point k ih => exact ih input

@[simp] theorem alone_attempt (p : Async κ ι σ ε α) :
    (attempt p).alone input s = (.ok (p.alone input s).1, (p.alone input s).2) := by
  induction p generalizing s with
  | done a => rfl
  | fail e => rfl
  | act f k ih => exact ih s
  | await point k ih => exact ih input

@[simp] theorem alone_awaiting (point : κ) (p : Async κ Unit σ ε α) :
    (awaiting point p).alone () s = p.alone () s := by
  rw [awaiting, alone_bind, alone_attempt]
  rcases p.alone () s with ⟨e | a, t⟩ <;> rfl

/-- A program that runs alone is resumed at every await. -/
theorem alone_resume (p : Async κ ι σ ε α) :
    (p.resume s).1.alone input (p.resume s).2 = p.alone input s := by
  induction p generalizing s with
  | done a => rfl
  | fail e => rfl
  | act f k ih => exact ih s
  | await point k ih => rfl

end

/-! ## Segments -/

/-- The point at which the program is suspended. -/
def point? : Async κ ι σ ε α → Option κ
  | await point _ => some point
  | _ => none

/-- How the program has ended, if it has. -/
def ended? : Async κ ι σ ε α → Option (Except ε α)
  | done a => some (.ok a)
  | fail e => some (.error e)
  | _ => none

@[simp] theorem point?_await (point : κ) (k : ι → Async κ ι σ ε α) :
    (await point k).point? = some point := rfl
@[simp] theorem point?_done (a : α) : (done a : Async κ ι σ ε α).point? = none := rfl
@[simp] theorem point?_fail (e : ε) : (fail e : Async κ ι σ ε α).point? = none := rfl
@[simp] theorem ended?_await (point : κ) (k : ι → Async κ ι σ ε α) :
    (await point k).ended? = none := rfl
@[simp] theorem ended?_done (a : α) : (done a : Async κ ι σ ε α).ended? = some (.ok a) := rfl
@[simp] theorem ended?_fail (e : ε) : (fail e : Async κ ι σ ε α).ended? = some (.error e) := rfl

/-- Where a segment stops: at an await, or at the end of the program. -/
inductive Stop (κ ε α : Type) where
  | waits (point : κ)
  | ends (outcome : Except ε α)
  deriving DecidableEq

/-- The point at which a segment stops, unless it ends. -/
def Stop.point? : Stop κ ε α → Option κ
  | waits point => some point
  | ends _ => none

/-- How a segment ends, if it does. -/
def Stop.outcome? : Stop κ ε α → Option (Except ε α)
  | waits _ => none
  | ends outcome => some outcome

/-- A segment that stops at an await. -/
def Stop.suspended : Stop κ ε α → Bool
  | waits _ => true
  | ends _ => false

/-- Every segment of the program is one of `seg`: from the point where it is resumed, or from its
start, and the state there, to where it stops and the state there. The first segment began at
`from?` in `s₀`. -/
def Follows (seg : Option κ → σ → Stop κ ε α → σ → Prop) (from? : Option κ) (s₀ : σ) :
    Async κ ι σ ε α → σ → Prop
  | done a, s => seg from? s₀ (.ends (.ok a)) s
  | fail e, s => seg from? s₀ (.ends (.error e)) s
  | act f k, s => (k s).Follows seg from? s₀ (f s)
  | await point k, s => seg from? s₀ (.waits point) s ∧
      ∀ t input, (k input).Follows seg (some point) t t

/-- Where a program that has been resumed has stopped. -/
def stop? : Async κ ι σ ε α → Option (Stop κ ε α)
  | done a => some (.ends (.ok a))
  | fail e => some (.ends (.error e))
  | act _ _ => none
  | await point _ => some (.waits point)

section

variable {seg : Option κ → σ → Stop κ ε α → σ → Prop} {from? : Option κ} {s₀ s : σ}

/-- What a segment does, and what is left. -/
theorem Follows.resume {p : Async κ ι σ ε α} (h : p.Follows seg from? s₀ s) :
    ∃ stop, (p.resume s).1.stop? = some stop ∧ seg from? s₀ stop (p.resume s).2 ∧
      ∀ point k, (p.resume s).1 = await point k →
        ∀ t input, (k input).Follows seg (some point) t t := by
  induction p generalizing s with
  | done a => exact ⟨_, rfl, h, fun _ _ heq => by cases heq⟩
  | fail e => exact ⟨_, rfl, h, fun _ _ heq => by cases heq⟩
  | act f k ih => exact ih s h
  | await point k _ =>
    refine ⟨_, rfl, h.1, fun point' k' heq => ?_⟩
    obtain ⟨rfl, rfl⟩ := Async.await.inj heq
    exact h.2

@[simp] theorem follows_done {a : α} :
    (done a : Async κ ι σ ε α).Follows seg from? s₀ s ↔ seg from? s₀ (.ends (.ok a)) s := .rfl
@[simp] theorem follows_fail {e : ε} :
    (fail e : Async κ ι σ ε α).Follows seg from? s₀ s ↔ seg from? s₀ (.ends (.error e)) s := .rfl
@[simp] theorem follows_get_bind {g : σ → Async κ ι σ ε α} :
    ((get : Async κ ι σ ε σ) >>= g).Follows seg from? s₀ s ↔ (g s).Follows seg from? s₀ s := .rfl
@[simp] theorem follows_modify_bind {f : σ → σ} {g : Unit → Async κ ι σ ε α} :
    ((modify f : Async κ ι σ ε Unit) >>= g).Follows seg from? s₀ s ↔
      (g ()).Follows seg from? s₀ (f s) := .rfl
@[simp] theorem follows_await {point : κ} {k : ι → Async κ ι σ ε α} :
    (await point k).Follows seg from? s₀ s ↔ seg from? s₀ (.waits point) s ∧
      ∀ t input, (k input).Follows seg (some point) t t := .rfl

theorem follows_ofExcept {r : Except ε α} :
    (ofExcept r : Async κ ι σ ε α).Follows seg from? s₀ s ↔ seg from? s₀ (.ends r) s := by
  cases r <;> rfl

theorem Follows.mono {seg' : Option κ → σ → Stop κ ε α → σ → Prop} {p : Async κ ι σ ε α}
    (h : p.Follows seg from? s₀ s)
    (hseg : ∀ from? s₀ stop s, seg from? s₀ stop s → seg' from? s₀ stop s) :
    p.Follows seg' from? s₀ s := by
  induction p generalizing from? s₀ s with
  | done a => exact hseg _ _ _ _ h
  | fail e => exact hseg _ _ _ _ h
  | act f k ih => exact ih s h
  | await point k ih => exact ⟨hseg _ _ _ _ h.1, fun t input => ih input (h.2 t input)⟩

theorem point?_of_stop? {p : Async κ ι σ ε α} {point : κ} (h : p.stop? = some (.waits point)) :
    p.point? = some point ∧ p.ended? = none := by
  cases p with
  | await point' k =>
    cases h
    exact ⟨rfl, rfl⟩
  | _ => cases h

theorem ended?_of_stop? {p : Async κ ι σ ε α} {outcome : Except ε α}
    (h : p.stop? = some (.ends outcome)) : p.point? = none ∧ p.ended? = some outcome := by
  cases p <;> cases h <;> exact ⟨rfl, rfl⟩

/-- A sequence goes on where its first part ends. -/
def Stop.Then (seg : Option κ → σ → Stop κ ε β → σ → Prop) (f : α → Async κ ι σ ε β)
    (from? : Option κ) (s₀ : σ) (stop : Stop κ ε α) (s : σ) : Prop :=
  match stop with
  | .waits point => seg from? s₀ (.waits point) s
  | .ends (.ok a) => (f a).Follows seg from? s₀ s
  | .ends (.error e) => seg from? s₀ (.ends (.error e)) s

theorem follows_bind {seg : Option κ → σ → Stop κ ε β → σ → Prop} {p : Async κ ι σ ε α}
    {f : α → Async κ ι σ ε β} :
    (p >>= f).Follows seg from? s₀ s ↔ p.Follows (Stop.Then seg f) from? s₀ s := by
  induction p generalizing from? s₀ s with
  | done a => rfl
  | fail e => rfl
  | act g k ih => exact ih s
  | await point k ih =>
    exact and_congr .rfl (forall_congr' fun t => forall_congr' fun input => ih input)

/-- An awaited call stops at its own awaits and, when it has ended, at the caller's. -/
def Stop.Awaited (seg : Option κ → σ → Stop κ ε α → σ → Prop) (point : κ) (from? : Option κ)
    (s₀ : σ) (stop : Stop κ ε α) (s : σ) : Prop :=
  match stop with
  | .waits point => seg from? s₀ (.waits point) s
  | .ends outcome => seg from? s₀ (.waits point) s ∧ ∀ t, seg (some point) t (.ends outcome) t

theorem follows_awaiting {p : Async κ Unit σ ε α} {point : κ} :
    (awaiting point p).Follows seg from? s₀ s ↔ p.Follows (Stop.Awaited seg point) from? s₀ s := by
  rw [awaiting]
  induction p generalizing from? s₀ s with
  | done a => exact and_congr .rfl (forall_congr' fun t => forall_const _)
  | fail e => exact and_congr .rfl (forall_congr' fun t => forall_const _)
  | act g k ih => exact ih s
  | await point k ih =>
    exact and_congr .rfl (forall_congr' fun t => forall_congr' fun input => ih input)

end

/-! ## Segments that depend on what comes back -/

/-- As `Follows`, where a segment also depends on what has come back at the point where it was
resumed. -/
def FollowsOn (seg : Option (κ × ι) → σ → Stop κ ε α → σ → Prop) (from? : Option (κ × ι)) (s₀ : σ) :
    Async κ ι σ ε α → σ → Prop
  | done a, s => seg from? s₀ (.ends (.ok a)) s
  | fail e, s => seg from? s₀ (.ends (.error e)) s
  | act f k, s => (k s).FollowsOn seg from? s₀ (f s)
  | await point k, s => seg from? s₀ (.waits point) s ∧
      ∀ t input, (k input).FollowsOn seg (some (point, input)) t t

section

variable {seg : Option (κ × ι) → σ → Stop κ ε α → σ → Prop} {from? : Option (κ × ι)} {s₀ s : σ}

/-- What a segment does, and what is left. -/
theorem FollowsOn.resume {p : Async κ ι σ ε α} (h : p.FollowsOn seg from? s₀ s) :
    ∃ stop, (p.resume s).1.stop? = some stop ∧ seg from? s₀ stop (p.resume s).2 ∧
      ∀ point k, (p.resume s).1 = await point k →
        ∀ t input, (k input).FollowsOn seg (some (point, input)) t t := by
  induction p generalizing s with
  | done a => exact ⟨_, rfl, h, nofun⟩
  | fail e => exact ⟨_, rfl, h, nofun⟩
  | act f k ih => exact ih s h
  | await point k _ =>
    refine ⟨_, rfl, h.1, fun point' k' heq => ?_⟩
    obtain ⟨rfl, rfl⟩ := Async.await.inj heq
    exact h.2

@[simp] theorem followsOn_done {a : α} :
    (done a : Async κ ι σ ε α).FollowsOn seg from? s₀ s ↔ seg from? s₀ (.ends (.ok a)) s := .rfl
@[simp] theorem followsOn_fail {e : ε} :
    (fail e : Async κ ι σ ε α).FollowsOn seg from? s₀ s ↔ seg from? s₀ (.ends (.error e)) s := .rfl
@[simp] theorem followsOn_get_bind {g : σ → Async κ ι σ ε α} :
    ((get : Async κ ι σ ε σ) >>= g).FollowsOn seg from? s₀ s ↔
      (g s).FollowsOn seg from? s₀ s := .rfl
@[simp] theorem followsOn_modify_bind {f : σ → σ} {g : Unit → Async κ ι σ ε α} :
    ((modify f : Async κ ι σ ε Unit) >>= g).FollowsOn seg from? s₀ s ↔
      (g ()).FollowsOn seg from? s₀ (f s) := .rfl
@[simp] theorem followsOn_await {point : κ} {k : ι → Async κ ι σ ε α} :
    (await point k).FollowsOn seg from? s₀ s ↔ seg from? s₀ (.waits point) s ∧
      ∀ t input, (k input).FollowsOn seg (some (point, input)) t t := .rfl

theorem followsOn_ofExcept {r : Except ε α} :
    (ofExcept r : Async κ ι σ ε α).FollowsOn seg from? s₀ s ↔ seg from? s₀ (.ends r) s := by
  cases r <;> rfl

theorem followsOn_ofExcept_bind {r : Except ε β} {f : β → Async κ ι σ ε α} :
    (ofExcept r >>= f).FollowsOn seg from? s₀ s ↔
      (∀ e, r = .error e → seg from? s₀ (.ends (.error e)) s) ∧
        ∀ b, r = .ok b → (f b).FollowsOn seg from? s₀ s := by
  cases r with
  | error e => simp
  | ok b => simp

theorem FollowsOn.mono {seg' : Option (κ × ι) → σ → Stop κ ε α → σ → Prop} {p : Async κ ι σ ε α}
    (h : p.FollowsOn seg from? s₀ s)
    (hseg : ∀ from? s₀ stop s, seg from? s₀ stop s → seg' from? s₀ stop s) :
    p.FollowsOn seg' from? s₀ s := by
  induction p generalizing from? s₀ s with
  | done a => exact hseg _ _ _ _ h
  | fail e => exact hseg _ _ _ _ h
  | act f k ih => exact ih s h
  | await point k ih => exact ⟨hseg _ _ _ _ h.1, fun t input => ih input (h.2 t input)⟩

/-- A sequence goes on where its first part ends. -/
def Stop.ThenOn (seg : Option (κ × ι) → σ → Stop κ ε β → σ → Prop) (f : α → Async κ ι σ ε β)
    (from? : Option (κ × ι)) (s₀ : σ) (stop : Stop κ ε α) (s : σ) : Prop :=
  match stop with
  | .waits point => seg from? s₀ (.waits point) s
  | .ends (.ok a) => (f a).FollowsOn seg from? s₀ s
  | .ends (.error e) => seg from? s₀ (.ends (.error e)) s

theorem followsOn_bind {seg : Option (κ × ι) → σ → Stop κ ε β → σ → Prop} {p : Async κ ι σ ε α}
    {f : α → Async κ ι σ ε β} :
    (p >>= f).FollowsOn seg from? s₀ s ↔ p.FollowsOn (Stop.ThenOn seg f) from? s₀ s := by
  induction p generalizing from? s₀ s with
  | done a => rfl
  | fail e => rfl
  | act g k ih => exact ih s
  | await point k ih =>
    exact and_congr .rfl (forall_congr' fun t => forall_congr' fun input => ih input)

/-- A call that goes on where its first part ends, however it ends. -/
def Stop.AttemptThen (seg : Option (κ × ι) → σ → Stop κ ε β → σ → Prop)
    (f : Except ε α → Async κ ι σ ε β) (from? : Option (κ × ι)) (s₀ : σ) (stop : Stop κ ε α) (s : σ) :
    Prop :=
  match stop with
  | .waits point => seg from? s₀ (.waits point) s
  | .ends outcome => (f outcome).FollowsOn seg from? s₀ s

theorem followsOn_attempt_bind {seg : Option (κ × ι) → σ → Stop κ ε β → σ → Prop}
    {p : Async κ ι σ ε α} {f : Except ε α → Async κ ι σ ε β} :
    (attempt p >>= f).FollowsOn seg from? s₀ s ↔
      p.FollowsOn (Stop.AttemptThen seg f) from? s₀ s := by
  induction p generalizing from? s₀ s with
  | done a => rfl
  | fail e => rfl
  | act g k ih => exact ih s
  | await point k ih =>
    exact and_congr .rfl (forall_congr' fun t => forall_congr' fun input => ih input)

end

end Async

/-! ## The calls of an isolate -/

/-- A call, and what is left of it. -/
structure Task (χ κ ι σ ε α : Type) where
  call : χ
  rest : Async κ ι σ ε α

/-- The state, every call that has been made, the ones that run and the outcomes of the others. -/
structure Isolate (χ κ ι σ ε α : Type) where
  state : σ
  called : List χ
  running : List (Task χ κ ι σ ε α)
  finished : List (χ × Except ε α)

inductive IsolateEvent (χ ι : Type) where
  | call (c : χ)
  | resume (i : Nat) (input : ι)
  | kill
  deriving DecidableEq, Repr

namespace Isolate

variable {χ κ ι σ ε α : Type}

/-- No call has been made. -/
def start (s : σ) : Isolate χ κ ι σ ε α := ⟨s, [], [], []⟩

/-- A call has run up to an await, or to its end. -/
def settle (s : Isolate χ κ ι σ ε α) (c : χ) : Async κ ι σ ε α × σ → Isolate χ κ ι σ ε α
  | (.done a, t) => { s with state := t, finished := s.finished ++ [(c, .ok a)] }
  | (.fail e, t) => { s with state := t, finished := s.finished ++ [(c, .error e)] }
  | (p, t) => { s with state := t, running := s.running ++ [⟨c, p⟩] }

/-- What is left of the `i`-th call that runs, once it is resumed with `input`. -/
def resumed? (s : Isolate χ κ ι σ ε α) (i : Nat) (input : ι) :
    Option (χ × Async κ ι σ ε α × σ) :=
  match s.running[i]? with
  | some ⟨c, .await _ k⟩ => some (c, (k input).resume s.state)
  | _ => none

section

variable (program : χ → Async κ ι σ ε α) (restart : σ → σ)

/-- One event: a call is made and runs up to its first await, a call is resumed, or the isolate is
killed. -/
def step (s : Isolate χ κ ι σ ε α) : IsolateEvent χ ι → Option (Isolate χ κ ι σ ε α)
  | .call c => some (settle { s with called := s.called ++ [c] } c ((program c).resume s.state))
  | .resume i input => (s.resumed? i input).map fun left =>
      settle { s with running := s.running.eraseIdx i } left.1 left.2
  | .kill => some { s with state := restart s.state, running := [] }

end

variable {program : χ → Async κ ι σ ε α} {restart : σ → σ} {s t : Isolate χ κ ι σ ε α} {c : χ}
  {i : Nat} {input : ι} {left : Async κ ι σ ε α × σ}

@[simp] theorem state_settle : (s.settle c left).state = left.2 := by
  obtain ⟨p, u⟩ := left
  cases p <;> rfl

@[simp] theorem called_settle : (s.settle c left).called = s.called := by
  obtain ⟨p, u⟩ := left
  cases p <;> rfl

theorem running_settle : (s.settle c left).running =
    s.running ++ if left.1.ended?.isNone then [⟨c, left.1⟩] else [] := by
  obtain ⟨p, u⟩ := left
  cases p <;> simp [settle, Async.ended?]

theorem finished_settle : (s.settle c left).finished =
    s.finished ++ left.1.ended?.toList.map fun outcome => (c, outcome) := by
  obtain ⟨p, u⟩ := left
  cases p <;> simp [settle, Async.ended?]

theorem mem_running_settle {task : Task χ κ ι σ ε α} (h : task ∈ (s.settle c left).running) :
    task ∈ s.running ∨ task = ⟨c, left.1⟩ := by
  rw [running_settle, List.mem_append] at h
  refine h.imp_right fun hnew => ?_
  split_ifs at hnew
  · exact List.mem_singleton.mp hnew
  · cases hnew

/-- The calls that run, counted, once a call has been settled. -/
theorem countP_running_settle (f : Task χ κ ι σ ε α → Bool) :
    (s.settle c left).running.countP f =
      s.running.countP f + if left.1.ended?.isNone && f ⟨c, left.1⟩ then 1 else 0 := by
  rw [running_settle, List.countP_append]
  cases left.1.ended?.isNone <;> simp [List.countP_cons]

/-- The call that is resumed is one of those that run. -/
theorem countP_eraseIdx {task : Task χ κ ι σ ε α} (h : s.running[i]? = some task)
    (f : Task χ κ ι σ ε α → Bool) :
    (s.running.eraseIdx i).countP f + (if f task then 1 else 0) = s.running.countP f := by
  obtain ⟨hi, rfl⟩ := List.getElem?_eq_some_iff.mp h
  rw [← (List.getElem_cons_eraseIdx_perm hi).countP_eq f, List.countP_cons]

/-- The calls that wait at some points, counted, once a call has been settled. -/
theorem countP_point_settle {stop : Async.Stop κ ε α} (hstop : left.1.stop? = some stop)
    (f : κ → Bool) : (s.settle c left).running.countP (fun task => task.rest.point?.any f) =
      s.running.countP (fun task => task.rest.point?.any f) +
        (stop.point?.any f).toNat := by
  rw [countP_running_settle]
  cases stop with
  | waits point =>
    obtain ⟨hpoint, hended⟩ := Async.point?_of_stop? hstop
    cases hf : f point <;> simp [hpoint, hended, Async.Stop.point?, hf]
  | ends outcome =>
    obtain ⟨hpoint, hended⟩ := Async.ended?_of_stop? hstop
    simp [hpoint, Async.Stop.point?]

/-- The calls that wait at some points, counted, without one that is resumed. -/
theorem countP_point_eraseIdx {point : κ} {k : ι → Async κ ι σ ε α}
    (h : s.running[i]? = some ⟨c, .await point k⟩) (f : κ → Bool) :
    (s.running.eraseIdx i).countP (fun task => task.rest.point?.any f) + (f point).toNat =
      s.running.countP fun task => task.rest.point?.any f := by
  rw [← countP_eraseIdx h]
  cases hf : f point <;> simp [hf]

/-- A call waits at some points, once a call has been settled. -/
theorem any_point_settle {stop : Async.Stop κ ε α} (hstop : left.1.stop? = some stop) (f : κ → Bool) :
    (s.settle c left).running.any (fun task => task.rest.point?.any f) =
      (s.running.any (fun task => task.rest.point?.any f) || stop.point?.any f) := by
  rw [running_settle, List.any_append]
  cases stop with
  | waits point =>
    obtain ⟨hpoint, hended⟩ := Async.point?_of_stop? hstop
    simp [hpoint, hended, Async.Stop.point?]
  | ends outcome =>
    obtain ⟨hpoint, hended⟩ := Async.ended?_of_stop? hstop
    simp [hended, Async.Stop.point?]

/-- A call waits at some points: the one that is resumed, or another one. -/
theorem any_point_eraseIdx {point : κ} {k : ι → Async κ ι σ ε α}
    (h : s.running[i]? = some ⟨c, .await point k⟩) (f : κ → Bool) :
    s.running.any (fun task => task.rest.point?.any f) =
      ((s.running.eraseIdx i).any (fun task => task.rest.point?.any f) || f point) := by
  obtain ⟨hi, htask⟩ := List.getElem?_eq_some_iff.mp h
  rw [← (List.getElem_cons_eraseIdx_perm hi).any_eq, List.any_cons, htask, Bool.or_comm]
  rfl

/-- What is collected at the points where the calls wait. -/
def collect {β : Type} (f : χ → κ → List β) (s : Isolate χ κ ι σ ε α) : List β :=
  s.running.flatMap fun task => task.rest.point?.elim [] (f task.call)

theorem collect_settle {β : Type} {stop : Async.Stop κ ε α} (hstop : left.1.stop? = some stop)
    (f : χ → κ → List β) :
    (s.settle c left).collect f = s.collect f ++ stop.point?.elim [] (f c) := by
  rw [collect, collect, running_settle, List.flatMap_append]
  cases stop with
  | waits point =>
    obtain ⟨hpoint, hended⟩ := Async.point?_of_stop? hstop
    simp [hpoint, hended, Async.Stop.point?]
  | ends outcome =>
    obtain ⟨hpoint, hended⟩ := Async.ended?_of_stop? hstop
    simp [hended, Async.Stop.point?]

/-- What is collected, with the call that is resumed first. -/
theorem collect_perm_eraseIdx {β : Type} {point : κ} {k : ι → Async κ ι σ ε α}
    (h : s.running[i]? = some ⟨c, .await point k⟩) (f : χ → κ → List β) :
    (s.collect f).Perm (f c point ++ { s with running := s.running.eraseIdx i }.collect f) := by
  obtain ⟨hi, htask⟩ := List.getElem?_eq_some_iff.mp h
  have hperm := (List.getElem_cons_eraseIdx_perm hi).symm
  rw [htask] at hperm
  exact hperm.flatMap_right _

theorem resumed?_eq_some : s.resumed? i input = some (c, left) ↔
    ∃ point k, s.running[i]? = some ⟨c, .await point k⟩ ∧ (k input).resume s.state = left := by
  cases htask : s.running[i]? with
  | none => simp [resumed?, htask]
  | some task =>
    obtain ⟨c', p⟩ := task
    cases p <;> simp [resumed?, htask]

theorem call_step : step program restart s (.call c) = some t ↔
    t = settle { s with called := s.called ++ [c] } c ((program c).resume s.state) := by
  simpa [step] using eq_comm

theorem resume_step : step program restart s (.resume i input) = some t ↔
    ∃ c point k, s.running[i]? = some ⟨c, .await point k⟩ ∧
      t = settle { s with running := s.running.eraseIdx i } c ((k input).resume s.state) := by
  rw [step, Option.map_eq_some_iff]
  constructor
  · rintro ⟨⟨c, left⟩, hleft, rfl⟩
    obtain ⟨point, k, hrunning, rfl⟩ := resumed?_eq_some.mp hleft
    exact ⟨c, point, k, hrunning, rfl⟩
  · rintro ⟨c, point, k, hrunning, rfl⟩
    exact ⟨(c, _), resumed?_eq_some.mpr ⟨point, k, hrunning, rfl⟩, rfl⟩

theorem kill_step : step program restart s .kill = some t ↔
    t = { s with state := restart s.state, running := [] } := by
  simpa [step] using eq_comm

/-! ### The segments of the calls -/

/-- Every call that runs waits at a point, and goes on in segments as specified. -/
def Obeys (seg : χ → Option κ → σ → Async.Stop κ ε α → σ → Prop) (s : Isolate χ κ ι σ ε α) : Prop :=
  ∀ task ∈ s.running, ∀ point k, task.rest = .await point k →
    ∀ u input, (k input).Follows (seg task.call) (some point) u u

/-- What an event does: a call, or what is left of one, goes through one of its segments. -/
def Segment (seg : χ → Option κ → σ → Async.Stop κ ε α → σ → Prop) (restart : σ → σ)
    (s t : Isolate χ κ ι σ ε α) : IsolateEvent χ ι → Prop
  | .call c => ∃ left : Async κ ι σ ε α × σ, ∃ stop, left.1.stop? = some stop ∧
      seg c none s.state stop left.2 ∧ t = settle { s with called := s.called ++ [c] } c left
  | .resume i _ => ∃ c point k, ∃ left : Async κ ι σ ε α × σ, ∃ stop,
      s.running[i]? = some ⟨c, .await point k⟩ ∧ left.1.stop? = some stop ∧
        seg c (some point) s.state stop left.2 ∧
          t = settle { s with running := s.running.eraseIdx i } c left
  | .kill => t = { s with state := restart s.state, running := [] }

theorem obeys_settle {seg : χ → Option κ → σ → Async.Stop κ ε α → σ → Prop} (hs : s.Obeys seg)
    (h : ∀ point k, left.1 = .await point k →
      ∀ u input, (k input).Follows (seg c) (some point) u u) : (s.settle c left).Obeys seg := by
  intro task htask
  obtain hold | rfl := mem_running_settle htask
  · exact hs task hold
  · exact h

/-- When every program is as specified, every step is a segment as specified. -/
theorem obeys_step {seg : χ → Option κ → σ → Async.Stop κ ε α → σ → Prop}
    (hprogram : ∀ c u, (program c).Follows (seg c) none u u) {event : IsolateEvent χ ι}
    (hs : s.Obeys seg) (hstep : step program restart s event = some t) :
    t.Obeys seg ∧ Segment seg restart s t event := by
  cases event with
  | call c =>
    obtain rfl := call_step.mp hstep
    obtain ⟨stop, hstop, hseg, hrest⟩ := (hprogram c s.state).resume
    exact ⟨obeys_settle hs hrest, _, stop, hstop, hseg, rfl⟩
  | resume i input =>
    obtain ⟨c, point, k, hrunning, rfl⟩ := resume_step.mp hstep
    obtain ⟨stop, hstop, hseg, hrest⟩ :=
      (hs _ (List.mem_of_getElem? hrunning) point k rfl s.state input).resume
    refine ⟨obeys_settle ?_ hrest, c, point, k, _, stop, hrunning, hstop, hseg, rfl⟩
    exact fun task htask => hs task (List.mem_of_mem_eraseIdx htask)
  | kill =>
    obtain rfl := kill_step.mp hstep
    exact ⟨by simp [Obeys], rfl⟩

/-! ### Segments that depend on what comes back -/

/-- As `Obeys`, where the segments depend on what comes back. -/
def ObeysOn (seg : χ → Option (κ × ι) → σ → Async.Stop κ ε α → σ → Prop)
    (s : Isolate χ κ ι σ ε α) : Prop :=
  ∀ task ∈ s.running, ∀ point k, task.rest = .await point k →
    ∀ u input, (k input).FollowsOn (seg task.call) (some (point, input)) u u

/-- As `Segment`, where the segment depends on what comes back. -/
def SegmentOn (seg : χ → Option (κ × ι) → σ → Async.Stop κ ε α → σ → Prop) (restart : σ → σ)
    (s t : Isolate χ κ ι σ ε α) : IsolateEvent χ ι → Prop
  | .call c => ∃ left : Async κ ι σ ε α × σ, ∃ stop, left.1.stop? = some stop ∧
      seg c none s.state stop left.2 ∧ t = settle { s with called := s.called ++ [c] } c left
  | .resume i input => ∃ c point k, ∃ left : Async κ ι σ ε α × σ, ∃ stop,
      s.running[i]? = some ⟨c, .await point k⟩ ∧ left.1.stop? = some stop ∧
        seg c (some (point, input)) s.state stop left.2 ∧
          t = settle { s with running := s.running.eraseIdx i } c left
  | .kill => t = { s with state := restart s.state, running := [] }

theorem obeysOn_settle {seg : χ → Option (κ × ι) → σ → Async.Stop κ ε α → σ → Prop}
    (hs : s.ObeysOn seg) (h : ∀ point k, left.1 = .await point k →
      ∀ u input, (k input).FollowsOn (seg c) (some (point, input)) u u) :
    (s.settle c left).ObeysOn seg := by
  intro task htask
  obtain hold | rfl := mem_running_settle htask
  · exact hs task hold
  · exact h

/-- When every program is as specified, every step is a segment as specified. -/
theorem obeysOn_step {seg : χ → Option (κ × ι) → σ → Async.Stop κ ε α → σ → Prop}
    (hprogram : ∀ c u, (program c).FollowsOn (seg c) none u u) {event : IsolateEvent χ ι}
    (hs : s.ObeysOn seg) (hstep : step program restart s event = some t) :
    t.ObeysOn seg ∧ SegmentOn seg restart s t event := by
  cases event with
  | call c =>
    obtain rfl := call_step.mp hstep
    obtain ⟨stop, hstop, hseg, hrest⟩ := (hprogram c s.state).resume
    exact ⟨obeysOn_settle hs hrest, _, stop, hstop, hseg, rfl⟩
  | resume i input =>
    obtain ⟨c, point, k, hrunning, rfl⟩ := resume_step.mp hstep
    obtain ⟨stop, hstop, hseg, hrest⟩ :=
      (hs _ (List.mem_of_getElem? hrunning) point k rfl s.state input).resume
    refine ⟨obeysOn_settle ?_ hrest, c, point, k, _, stop, hrunning, hstop, hseg, rfl⟩
    exact fun task htask => hs task (List.mem_of_mem_eraseIdx htask)
  | kill =>
    obtain rfl := kill_step.mp hstep
    exact ⟨by simp [ObeysOn], rfl⟩

/-! ### What a segment changes of what is collected -/

/-- A call has gone on: it waits at another point, or has ended. -/
structure Moves (s t : Isolate χ κ ι σ ε α) (c : χ) (from? : Option κ) (stop : Async.Stop κ ε α) :
    Prop where
  collect : ∀ {β : Type} (f : χ → κ → List β),
    (t.collect f ++ from?.elim [] (f c)).Perm (s.collect f ++ stop.point?.elim [] (f c))
  before : ∀ {β : Type} (f : χ → κ → List β), from?.elim [] (f c) ⊆ s.collect f
  after : ∀ {β : Type} (f : χ → κ → List β), stop.point?.elim [] (f c) ⊆ t.collect f
  finished : t.finished = s.finished ++ stop.outcome?.toList.map fun outcome => (c, outcome)

section

variable {from? : Option κ} {stop : Async.Stop κ ε α} {β : Type} {f : χ → κ → List β} {x : β}

theorem subset_collect_settle (hstop : left.1.stop? = some stop) (f : χ → κ → List β) :
    stop.point?.elim [] (f c) ⊆ (s.settle c left).collect f := by
  rw [collect_settle hstop]
  exact List.subset_append_right _ _

theorem finished_settle_of_stop? (hstop : left.1.stop? = some stop) : (s.settle c left).finished =
    s.finished ++ stop.outcome?.toList.map fun outcome => (c, outcome) := by
  rw [finished_settle]
  cases stop with
  | waits point => rw [(Async.point?_of_stop? hstop).2, Async.Stop.outcome?]
  | ends outcome => rw [(Async.ended?_of_stop? hstop).2, Async.Stop.outcome?]

/-- What is collected is where the calls wait now: one that has gone on, or another one. -/
theorem Moves.mem_iff (h : Moves s t c from? stop) : x ∈ t.collect f ∨ x ∈ from?.elim [] (f c) ↔
    x ∈ s.collect f ∨ x ∈ stop.point?.elim [] (f c) := by
  have hperm := (h.collect f).mem_iff (a := x)
  rwa [List.mem_append, List.mem_append] at hperm

theorem obeysOn_call {seg : χ → Option (κ × ι) → σ → Async.Stop κ ε α → σ → Prop}
    (hprogram : ∀ c u, (program c).FollowsOn (seg c) none u u) (hs : s.ObeysOn seg)
    (hstep : step program restart s (.call c) = some t) :
    t.ObeysOn seg ∧ ∃ stop, seg c none s.state stop t.state ∧ Moves s t c none stop := by
  obtain ⟨hobeys, left, stop, hstop, hseg, rfl⟩ := obeysOn_step hprogram hs hstep
  refine ⟨hobeys, stop, by rwa [state_settle], ⟨fun f => ?_, fun f => List.nil_subset _,
    subset_collect_settle hstop, finished_settle_of_stop? hstop⟩⟩
  rw [collect_settle hstop, Option.elim_none, List.append_nil]
  exact .refl _

theorem obeysOn_resume {seg : χ → Option (κ × ι) → σ → Async.Stop κ ε α → σ → Prop}
    (hprogram : ∀ c u, (program c).FollowsOn (seg c) none u u) (hs : s.ObeysOn seg)
    (hstep : step program restart s (.resume i input) = some t) :
    t.ObeysOn seg ∧ ∃ c point k stop, s.running[i]? = some ⟨c, .await point k⟩ ∧
      seg c (some (point, input)) s.state stop t.state ∧ Moves s t c (some point) stop := by
  obtain ⟨hobeys, c, point, k, left, stop, hrunning, hstop, hseg, rfl⟩ :=
    obeysOn_step hprogram hs hstep
  refine ⟨hobeys, c, point, k, stop, hrunning, by rwa [state_settle], ⟨fun f => ?_, fun f => ?_,
    subset_collect_settle hstop, finished_settle_of_stop? hstop⟩⟩
  · rw [collect_settle hstop, Option.elim_some]
    refine List.perm_append_comm.trans ?_
    rw [← List.append_assoc]
    exact (collect_perm_eraseIdx hrunning f).symm.append_right _
  · intro x hx
    exact (collect_perm_eraseIdx hrunning f).mem_iff.mpr (List.mem_append_left _ hx)

end

/-! ### What is noted of the calls that run -/

section

variable {τ : Type} {notes : List τ} {note : τ}

/-- The notes on the calls that run, when one with a note has gone on: it comes last, or has ended. -/
def annotate (notes : List τ) (note : τ) (t : Isolate χ κ ι σ ε α) : List τ :=
  (notes ++ [note]).take t.running.length

theorem forall₂_settle {R : Task χ κ ι σ ε α → τ → Prop} (h : List.Forall₂ R s.running notes)
    (hnote : left.1.ended? = none → R ⟨c, left.1⟩ note) :
    List.Forall₂ R (s.settle c left).running (annotate notes note (s.settle c left)) := by
  rw [annotate, running_settle]
  cases hended : left.1.ended? with
  | none =>
    have hlength : (s.running ++ [(⟨c, left.1⟩ : Task χ κ ι σ ε α)]).length =
        (notes ++ [note]).length := by
      simp [h.length_eq]
    rw [Option.isNone_none, if_pos rfl, hlength, List.take_length]
    exact List.rel_append h (.cons (hnote hended) .nil)
  | some outcome =>
    rw [Option.isNone_some, if_neg Bool.false_ne_true, List.append_nil, h.length_eq,
      List.take_left]
    exact h

theorem forall₂_eraseIdx {R : Task χ κ ι σ ε α → τ → Prop} (h : List.Forall₂ R s.running notes)
    (i : Nat) : List.Forall₂ R (s.running.eraseIdx i) (notes.eraseIdx i) := by
  generalize s.running = running at h
  induction h generalizing i with
  | nil => exact .nil
  | cons hhead htail ih =>
    cases i with
    | zero => exact htail
    | succ i => exact .cons hhead (ih i)

/-- The note on a call that runs. -/
theorem forall₂_getElem? {R : Task χ κ ι σ ε α → τ → Prop} {task : Task χ κ ι σ ε α}
    (h : List.Forall₂ R s.running notes) (htask : s.running[i]? = some task) :
    ∃ note, notes[i]? = some note ∧ R task note := by
  obtain ⟨hi, htask⟩ := List.getElem?_eq_some_iff.mp htask
  have hi' : i < notes.length := h.length_eq ▸ hi
  refine ⟨notes[i], List.getElem?_eq_getElem hi', ?_⟩
  have hget := h.get hi hi'
  simpa [htask] using hget

end

end Isolate

end Lib
