import Mathlib.Algebra.GroupWithZero.Nat
import Mathlib.Tactic.Common

/-!
# Matching with backtracking

A matcher lists the ways to match a first part of a text in the order in which a regular expression
tries them, so that the first one that leaves nothing of the text is the match of the whole.

## Main definitions

* `Matcher`, `Matcher.optional`, `Matcher.digits` — the parts of regular expressions.
* `Matcher.whole` — the match of a whole text.
* `Matcher.First` — the match that is tried first.
* `digitsOf`, `numberOf` — a number in a fixed number of digits, and back.

`First.bind` is the rule for sequences; `whole_of_first` leaves the first match to be found.
-/

namespace Lib

/-- Every way to match a first part of a text: what is read, and the rest of the text. -/
def Matcher (α : Type) := List Char → List (α × List Char)

namespace Matcher

variable {α β : Type}

instance : Monad Matcher where
  pure a text := [(a, text)]
  bind m f text := (m text).flatMap fun r => f r.1 r.2

/-- A character of a class. -/
def char (ok : Char → Bool) : Matcher Char
  | [] => []
  | c :: rest => if ok c then [(c, rest)] else []

/-- `m|n`. -/
def or (m n : Matcher α) : Matcher α := fun text => m text ++ n text

/-- `m?`. -/
def optional (m : Matcher α) : Matcher (Option α) := or (m >>= fun a => pure (some a)) (pure none)

/-- `\d{n}`. -/
def digits : Nat → Matcher (List Char)
  | 0 => pure []
  | n + 1 => do
    let digit ← char Char.isDigit
    let rest ← digits n
    pure (digit :: rest)

/-- `\d+`. -/
def digitRun : Matcher (List Char)
  | [] => []
  | c :: rest =>
    if c.isDigit then (digitRun rest).map (fun r => (c :: r.1, r.2)) ++ [([c], rest)] else []

/-- The match of the whole text. -/
def whole (m : Matcher α) (text : String) : Option α :=
  ((m text.toList).find? fun r => r.2.isEmpty).map (·.1)

/-- The match that is tried first. -/
def First (m : Matcher α) (text : List Char) (a : α) (rest : List Char) : Prop :=
  (m text).head? = some (a, rest)

variable {m n : Matcher α} {f : α → Matcher β} {text rest rest' : List Char} {a : α} {b : β}

theorem first_iff : m.First text a rest ↔ ∃ others, m text = (a, rest) :: others :=
  List.head?_eq_some_iff

theorem first_pure : (pure a : Matcher α).First text a text := rfl

theorem First.bind (hm : m.First text a rest) (hf : (f a).First rest b rest') :
    (m >>= f).First text b rest' := by
  obtain ⟨others, hothers⟩ := first_iff.mp hm
  obtain ⟨others', hothers'⟩ := first_iff.mp hf
  have hbind : (m >>= f) text = (m text).flatMap fun r => f r.1 r.2 := rfl
  exact first_iff.mpr ⟨_, by rw [hbind, hothers, List.flatMap_cons, hothers', List.cons_append]⟩

theorem First.or_left (h : m.First text a rest) : (or m n).First text a rest := by
  obtain ⟨others, hothers⟩ := first_iff.mp h
  exact first_iff.mpr ⟨_, by rw [or, hothers, List.cons_append]⟩

theorem First.or_right (hm : m text = []) (h : n.First text a rest) :
    (or m n).First text a rest := by
  rwa [First, or, hm, List.nil_append]

theorem First.optional (h : m.First text a rest) : m.optional.First text (some a) rest :=
  .or_left (h.bind first_pure)

theorem first_optional_none (h : m text = []) : m.optional.First text none text :=
  .or_right (by simp [Bind.bind, h]) first_pure

theorem first_char {ok : Char → Bool} {c : Char} (h : ok c = true) :
    (char ok).First (c :: rest) c rest := by
  simp [First, char, h]

theorem char_eq_nil {ok : Char → Bool} {c : Char} (h : ok c = false) :
    char ok (c :: rest) = [] := by
  simp [char, h]

theorem bind_eq_nil (h : m text = []) : (m >>= f) text = [] := by
  simp [Bind.bind, h]

theorem first_digits {ds : List Char} (h : ∀ d ∈ ds, d.isDigit = true) :
    (digits ds.length).First (ds ++ rest) ds rest := by
  induction ds with
  | nil => exact first_pure
  | cons d ds ih =>
    exact (first_char (h d List.mem_cons_self)).bind
      ((ih fun d hd => h d (List.mem_cons_of_mem _ hd)).bind first_pure)

/-- Fewer digits than are to be matched. -/
theorem digits_eq_nil {ds : List Char} {c : Char} (hc : c.isDigit = false) {count : Nat}
    (h : ds.length < count) : digits count (ds ++ c :: rest) = [] := by
  induction ds generalizing count with
  | nil =>
    cases count with
    | zero => cases h
    | succ count => exact bind_eq_nil (char_eq_nil hc)
  | cons d ds ih =>
    cases count with
    | zero => cases h
    | succ count =>
      have hrest := ih (Nat.lt_of_succ_lt_succ h)
      simp [digits, Bind.bind, char, hrest]

/-- Digits up to the end of the text. -/
theorem first_digitRun {ds : List Char} (hne : ds ≠ []) (h : ∀ d ∈ ds, d.isDigit = true) :
    digitRun.First ds ds [] := by
  induction ds with
  | nil => exact absurd rfl hne
  | cons d ds ih =>
    have hd := h d List.mem_cons_self
    cases ds with
    | nil => simp [First, digitRun, hd]
    | cons d' ds =>
      obtain ⟨others, hothers⟩ := first_iff.mp
        (ih (List.cons_ne_nil _ _) fun d hd => h d (List.mem_cons_of_mem _ hd))
      rw [First, digitRun, if_pos hd, hothers, List.map_cons, List.cons_append]
      rfl

theorem whole_of_first {text : String} (h : m.First text.toList a []) : m.whole text = some a := by
  obtain ⟨others, hothers⟩ := first_iff.mp h
  rw [whole, hothers, List.find?_cons_of_pos rfl]
  rfl

end Matcher

/-! ## Numbers -/

/-- The last `count` digits of a number. -/
def digitsOf : Nat → Nat → List Char
  | 0, _ => []
  | count + 1, n => digitsOf count (n / 10) ++ [Nat.digitChar (n % 10)]

/-- The number that digits are. -/
def numberOf (digits : List Char) : Nat :=
  digits.foldl (fun n digit => 10 * n + (digit.toNat - 48)) 0

@[simp] theorem length_digitsOf (count n : Nat) : (digitsOf count n).length = count := by
  induction count generalizing n with
  | zero => rfl
  | succ count ih => rw [digitsOf, List.length_append, ih, List.length_singleton]

theorem digitChar_of_lt :
    ∀ n < 10, n.digitChar.isDigit = true ∧ n.digitChar.toNat - 48 = n := by decide

theorem isDigit_digitsOf (count n : Nat) : ∀ d ∈ digitsOf count n, d.isDigit = true := by
  induction count generalizing n with
  | zero => simp [digitsOf]
  | succ count ih =>
    intro d hd
    obtain hd | hd := List.mem_append.mp hd
    · exact ih _ d hd
    · obtain rfl := List.mem_singleton.mp hd
      exact (digitChar_of_lt _ (Nat.mod_lt n (by decide))).1

theorem numberOf_digitsOf {count n : Nat} (h : n < 10 ^ count) : numberOf (digitsOf count n) = n := by
  induction count generalizing n with
  | zero =>
    obtain rfl : n = 0 := by omega
    rfl
  | succ count ih =>
    have hlast : numberOf (digitsOf count (n / 10) ++ [Nat.digitChar (n % 10)]) =
        10 * numberOf (digitsOf count (n / 10)) + ((n % 10).digitChar.toNat - 48) := by
      rw [numberOf, List.foldl_append]
      rfl
    rw [digitsOf, hlast, ih (by omega), (digitChar_of_lt _ (Nat.mod_lt n (by decide))).2]
    omega

/-- The digits of a number, before what is no digit. -/
theorem Matcher.first_digitsOf (count n : Nat) (rest : List Char) :
    (Matcher.digits count).First (digitsOf count n ++ rest) (digitsOf count n) rest := by
  have h : (Matcher.digits (digitsOf count n).length).First (digitsOf count n ++ rest)
      (digitsOf count n) rest :=
    Matcher.first_digits (isDigit_digitsOf count n)
  rwa [length_digitsOf] at h

end Lib
