import Mathlib.Order.Defs.Unbundled
import Mathlib.Tactic.Common

/-!
# Stateful programs that may fail

`Effect σ ε α` is a program over states `σ` that returns an `α` or fails with an `ε`. A failure
keeps the state it has reached: nothing is rolled back.

## Main definitions

* `Effect.exec` — run a program; `Effect.fail`, `Effect.get`, `Effect.modify` — the primitives.
* `Effect.attempt` — run a program and return its outcome instead of failing.
* `Effect.andFinally` — run a clean-up after a program, whatever its outcome.
* `Effect.Respects` — every run of the program relates its first state to its last one.

`exec_bind_ok` takes a successful run of a sequence apart; `Respects.bind` composes what the two
halves preserve.
-/

namespace Lib

/-- A program over states `σ` that returns an `α` or fails with an `ε`. -/
structure Effect (σ ε α : Type) where
  exec : σ → Except ε α × σ

namespace Effect

variable {σ ε α β : Type}

protected def pure (a : α) : Effect σ ε α := ⟨fun s => (.ok a, s)⟩

protected def bind (p : Effect σ ε α) (f : α → Effect σ ε β) : Effect σ ε β :=
  ⟨fun s => match p.exec s with
    | (.ok a, t) => (f a).exec t
    | (.error e, t) => (.error e, t)⟩

instance : Monad (Effect σ ε) where
  pure := Effect.pure
  bind := Effect.bind

/-- Stop with a failure. -/
def fail (e : ε) : Effect σ ε α := ⟨fun s => (.error e, s)⟩

/-- Read the state. -/
def get : Effect σ ε σ := ⟨fun s => (.ok s, s)⟩

/-- Update the state. -/
def modify (f : σ → σ) : Effect σ ε Unit := ⟨fun s => (.ok (), f s)⟩

/-- The value of an option, or a failure. -/
def orFail (a : Option α) (e : ε) : Effect σ ε α :=
  match a with
  | some a => pure a
  | none => fail e

/-- Run `p` and return its outcome; the state it has reached is kept. -/
def attempt (p : Effect σ ε α) : Effect σ ε (Except ε α) :=
  ⟨fun s => (.ok (p.exec s).1, (p.exec s).2)⟩

/-- Run `q` after `p`, whatever the outcome of `p`; a failure of `q` replaces that outcome. -/
def andFinally (p : Effect σ ε α) (q : Effect σ ε Unit) : Effect σ ε α :=
  ⟨fun s => match q.exec (p.exec s).2 with
    | (.ok (), t) => ((p.exec s).1, t)
    | (.error e, t) => (.error e, t)⟩

@[simp] theorem exec_pure (a : α) (s : σ) :
    (pure a : Effect σ ε α).exec s = (.ok a, s) := rfl

@[simp] theorem exec_fail (e : ε) (s : σ) :
    (fail e : Effect σ ε α).exec s = (.error e, s) := rfl

@[simp] theorem exec_get (s : σ) : (get : Effect σ ε σ).exec s = (.ok s, s) := rfl

@[simp] theorem exec_modify (f : σ → σ) (s : σ) :
    (modify f : Effect σ ε Unit).exec s = (.ok (), f s) := rfl

@[simp] theorem exec_orFail_some (a : α) (e : ε) (s : σ) :
    (orFail (some a) e : Effect σ ε α).exec s = (.ok a, s) := rfl

@[simp] theorem exec_orFail_none (e : ε) (s : σ) :
    (orFail none e : Effect σ ε α).exec s = (.error e, s) := rfl

@[simp] theorem exec_attempt (p : Effect σ ε α) (s : σ) :
    p.attempt.exec s = (.ok (p.exec s).1, (p.exec s).2) := rfl

theorem exec_bind (p : Effect σ ε α) (f : α → Effect σ ε β) (s : σ) :
    (p >>= f).exec s = match p.exec s with
      | (.ok a, t) => (f a).exec t
      | (.error e, t) => (.error e, t) := rfl

theorem exec_bind_of_ok {p : Effect σ ε α} {s t : σ} {a : α} (h : p.exec s = (.ok a, t))
    (f : α → Effect σ ε β) : (p >>= f).exec s = (f a).exec t := by
  rw [exec_bind, h]

theorem exec_bind_of_error {p : Effect σ ε α} {s t : σ} {e : ε} (h : p.exec s = (.error e, t))
    (f : α → Effect σ ε β) : (p >>= f).exec s = (.error e, t) := by
  rw [exec_bind, h]

@[simp] theorem exec_pure_bind (a : α) (f : α → Effect σ ε β) (s : σ) :
    ((pure a : Effect σ ε α) >>= f).exec s = (f a).exec s := rfl

@[simp] theorem exec_fail_bind (e : ε) (f : α → Effect σ ε β) (s : σ) :
    ((fail e : Effect σ ε α) >>= f).exec s = (.error e, s) := rfl

@[simp] theorem exec_get_bind (f : σ → Effect σ ε β) (s : σ) :
    ((get : Effect σ ε σ) >>= f).exec s = (f s).exec s := rfl

@[simp] theorem exec_modify_bind (g : σ → σ) (f : Unit → Effect σ ε β) (s : σ) :
    ((modify g : Effect σ ε Unit) >>= f).exec s = (f ()).exec (g s) := rfl

@[simp] theorem exec_orFail_some_bind (a : α) (e : ε) (f : α → Effect σ ε β) (s : σ) :
    ((orFail (some a) e : Effect σ ε α) >>= f).exec s = (f a).exec s := rfl

@[simp] theorem exec_orFail_none_bind (e : ε) (f : α → Effect σ ε β) (s : σ) :
    ((orFail none e : Effect σ ε α) >>= f).exec s = (.error e, s) := rfl

@[simp] theorem exec_attempt_bind (p : Effect σ ε α) (f : Except ε α → Effect σ ε β) (s : σ) :
    (p.attempt >>= f).exec s = (f (p.exec s).1).exec (p.exec s).2 := rfl

@[simp] theorem exec_bind_assoc {γ : Type} (p : Effect σ ε α) (f : α → Effect σ ε β)
    (g : β → Effect σ ε γ) (s : σ) :
    ((p >>= f) >>= g).exec s = (p >>= fun a => f a >>= g).exec s := by
  simp only [exec_bind]
  rcases p.exec s with ⟨a | e, t⟩ <;> rfl

/-- A successful run of a sequence is a successful run of each half. -/
theorem exec_bind_ok {p : Effect σ ε α} {f : α → Effect σ ε β} {s u : σ} {b : β} :
    (p >>= f).exec s = (.ok b, u) ↔
      ∃ a t, p.exec s = (.ok a, t) ∧ (f a).exec t = (.ok b, u) := by
  rw [exec_bind]
  rcases p.exec s with ⟨e | a, t⟩ <;> simp

/-- A failure stays one, with the state that the clean-up leaves. -/
theorem exec_andFinally_of_error {p : Effect σ ε α} {q : Effect σ ε Unit} {s t : σ} {e : ε}
    (h : p.exec s = (.error e, t)) :
    ∃ e', (p.andFinally q).exec s = (.error e', (q.exec t).2) := by
  rcases hq : q.exec t with ⟨e' | _, u⟩ <;> simp [andFinally, h, hq]

theorem exec_andFinally_of_ok {p : Effect σ ε α} {q : Effect σ ε Unit} {s t : σ} {a : α}
    (h : p.exec s = (.ok a, t)) :
    (p.andFinally q).exec s = ((q.exec t).1.map fun _ => a, (q.exec t).2) := by
  rcases hq : q.exec t with ⟨e' | _, u⟩ <;> simp [andFinally, h, hq, Except.map]

/-! ## What every run preserves -/

/-- Every run of `p`, successful or not, relates its first state to its last one by `R`. -/
def Respects (R : σ → σ → Prop) (p : Effect σ ε α) : Prop := ∀ s, R s (p.exec s).2

/-- Every run of `p` leaves `view` of the state as it was. -/
abbrev Keeps {γ : Type} (view : σ → γ) (p : Effect σ ε α) : Prop :=
  Respects (fun s t => view t = view s) p

namespace Respects

variable {R : σ → σ → Prop}

theorem bind [IsTrans σ R] {p : Effect σ ε α} {f : α → Effect σ ε β} (hp : Respects R p)
    (hf : ∀ a, Respects R (f a)) : Respects R (p >>= f) := by
  intro s
  have hs := hp s
  rw [exec_bind]
  rcases h : p.exec s with ⟨e | a, t⟩
  · simpa [h] using hs
  · rw [h] at hs
    exact trans_of R hs (hf a t)

theorem pure [Std.Refl R] (a : α) : Respects R (Pure.pure a : Effect σ ε α) :=
  fun s => refl_of R s

theorem fail [Std.Refl R] (e : ε) : Respects R (Effect.fail e : Effect σ ε α) :=
  fun s => refl_of R s

theorem get [Std.Refl R] : Respects R (Effect.get : Effect σ ε σ) := fun s => refl_of R s

theorem modify {f : σ → σ} (h : ∀ s, R s (f s)) : Respects R (Effect.modify f : Effect σ ε Unit) :=
  h

theorem orFail [Std.Refl R] (o : Option α) (e : ε) :
    Respects R (Effect.orFail o e : Effect σ ε α) := by
  cases o with
  | none => exact fail e
  | some a => exact pure a

theorem attempt {p : Effect σ ε α} (h : Respects R p) : Respects R p.attempt := h

theorem andFinally [IsTrans σ R] {p : Effect σ ε α} {q : Effect σ ε Unit} (hp : Respects R p)
    (hq : Respects R q) : Respects R (p.andFinally q) := by
  intro s
  have hs := trans_of R (hp s) (hq (p.exec s).2)
  simp only [Effect.andFinally]
  rcases h : q.exec (p.exec s).2 with ⟨e | _, t⟩ <;> simpa [h] using hs

end Respects

instance {γ : Type} (view : σ → γ) : Std.Refl fun s t : σ => view t = view s := ⟨fun _ => rfl⟩

instance {γ : Type} (view : σ → γ) : IsTrans σ fun s t => view t = view s :=
  ⟨fun _ _ _ h k => k.trans h⟩

end Effect

/-- An outcome that is known to be a success, as one. -/
theorem eq_ok_get {ε α : Type} {outcome : Except ε α} (h : outcome.toOption.isSome = true) :
    outcome = .ok (outcome.toOption.get h) := by
  cases outcome with
  | error e => simp [Except.toOption] at h
  | ok a => rfl

end Lib
