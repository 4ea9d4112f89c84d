import Duet.Lib.Program

/-!
# Programs with side operations

A program may have operations beside those of another program, whose responses tell it nothing.
Without them it is a program over the operations of the other.

## Main definitions

* `Extended` — the operations of a program, and side operations.
* `Program.embed`, `Program.forget` — a program without side operations, and back.

`issues_of_forget` carries over what a program issues, and `forget_bind` compares two programs part
by part. `Obeys.embed_bind` is the rule for a part without side operations.
-/

namespace Lib

variable {ω τ : Type} {ρ : ω → Type} {ε α β : Type}

/-- The operations of a program, and side operations. -/
inductive Extended (ω τ : Type) where
  | base (o : ω)
  | side (t : τ)
  deriving DecidableEq, Repr

/-- A side operation responds with nothing. -/
def Extended.Response (ρ : ω → Type) : Extended ω τ → Type
  | base o => ρ o
  | side _ => Unit

namespace Program

/-- A program that has no side operations. -/
def embed : Program ω ρ ε α → Program (Extended ω τ) (Extended.Response ρ) ε α
  | done a => done a
  | fail e => fail e
  | call o k => call (.base o) fun r => (k r).embed

/-- The program without its side operations. -/
def forget : Program (Extended ω τ) (Extended.Response ρ) ε α → Program ω ρ ε α
  | done a => done a
  | fail e => fail e
  | call (.base o) k => call o fun r => (k r).forget
  | call (.side _) k => (k ()).forget

@[simp] theorem forget_done (a : α) :
    (done a : Program (Extended ω τ) (Extended.Response ρ) ε α).forget = done a := rfl

@[simp] theorem forget_embed (p : Program ω ρ ε α) :
    (p.embed : Program (Extended ω τ) (Extended.Response ρ) ε α).forget = p := by
  induction p with
  | done a => rfl
  | fail e => rfl
  | call o k ih => exact congrArg (call o) (funext ih)

@[simp] theorem forget_bind (p : Program (Extended ω τ) (Extended.Response ρ) ε α)
    (f : α → Program (Extended ω τ) (Extended.Response ρ) ε β) :
    (p >>= f).forget = p.forget >>= fun a => (f a).forget := by
  induction p with
  | done a => rfl
  | fail e => rfl
  | call o k ih =>
    cases o with
    | base o => exact congrArg (call o) (funext ih)
    | side t => exact ih ()

/-- What is issued without the side operations. -/
theorem issues_of_forget {ok : ω → Prop} {ok' : Extended ω τ → Prop}
    (hbase : ∀ o, ok o → ok' (.base o)) (hside : ∀ t, ok' (.side t))
    {p : Program (Extended ω τ) (Extended.Response ρ) ε α}
    (h : p.forget.Issues (fun _ _ => True) ok) : p.Issues (fun _ _ => True) ok' := by
  induction p with
  | done a => trivial
  | fail e => trivial
  | call o k ih =>
    cases o with
    | base o => exact ⟨hbase o h.1, fun r _ => ih r (h.2 r trivial)⟩
    | side t => exact ⟨hside t, fun r _ => ih r h⟩

/-- A part without side operations, where only side operations are restricted. -/
theorem Obeys.embed_bind {κ : Type}
    {next : (o : Extended ω τ) → κ → Extended.Response ρ o → κ → Prop} {ok : Extended ω τ → κ → Prop}
    {p : Program ω ρ ε α} {f : α → Program (Extended ω τ) (Extended.Response ρ) ε β} {k : κ}
    (hbase : ∀ o l, ok (.base o) l) (hf : ∀ a l, (f a).Obeys next ok (fun _ _ => True) l) :
    (p.embed >>= f).Obeys next ok (fun _ _ => True) k := by
  induction p generalizing k with
  | done a => exact hf a k
  | fail e => trivial
  | call o rest ih => exact ⟨hbase o k, fun r l _ => ih r⟩

end Program

end Lib
