import Mathlib.Data.String.Basic

/-!
# Text

White space, letter case and the order of texts. Which letters are upper or lower case versions of
which others is left to the platform.

## Main definitions

* `trim` — a text without the white space at its ends.
* `Casing` — the case mappings of the platform; `Casing.capitalize` — a text with its first letter
  in upper case.
* `codeUnits`, `compareTo` — the code units of a text, and texts compared by theirs.
-/

namespace Lib

/-- White space to `trim`. -/
def isTrimmed (c : Char) : Bool :=
  let n := c.toNat
  (9 ≤ n && n ≤ 13) || n == 32 || n == 133 || n == 160 || n == 5760 || (8192 ≤ n && n ≤ 8202) ||
    n == 8232 || n == 8233 || n == 8239 || n == 8287 || n == 12288 || n == 65279

/-- `trim`. -/
def trim (s : String) : String :=
  String.ofList (((s.toList.dropWhile isTrimmed).reverse.dropWhile isTrimmed).reverse)

/-- The case mappings of the platform. -/
structure Casing where
  toUpperCase : String → String
  toLowerCase : String → String

namespace Casing

/-- The mappings of the letters `a` to `z`. -/
def ascii : Casing where
  toUpperCase s := String.ofList (s.toList.map Char.toUpper)
  toLowerCase s := String.ofList (s.toList.map Char.toLower)

/-- A text with its first letter in upper case. A letter of two code units is not a letter to
`value[0]`, and stays. -/
def capitalize (casing : Casing) (s : String) : String :=
  match s.toList with
  | [] => s
  | c :: rest =>
    if c.toNat < 65536 then casing.toUpperCase (String.singleton c) ++ String.ofList rest else s

end Casing

/-! ## The order of texts -/

/-- The code units of a letter: a letter beyond the first plane has two. -/
def Char.codeUnits (c : Char) : List Nat :=
  if c.toNat < 0x10000 then [c.toNat]
  else [0xD800 + (c.toNat - 0x10000) / 0x400, 0xDC00 + (c.toNat - 0x10000) % 0x400]

def codeUnits (s : String) : List Nat := s.toList.flatMap Char.codeUnits

/-- `compareTo`: the first code units that differ decide. -/
def compareTo (s t : String) : Ordering := (codeUnits s).compareLex compare (codeUnits t)

/-- `contains`. -/
def containsText (text part : String) : Bool := text.toList.tails.any part.toList.isPrefixOf

/-- No letter stands for half of another one. -/
theorem Char.not_surrogate (c : Char) : c.toNat < 0xD800 ∨ 0xDFFF < c.toNat ∧ c.toNat < 0x110000 :=
  c.valid

/-- The code units of two letters differ at once, unless the letters are the same. -/
theorem Char.codeUnits_append_inj {c d : Char} {cs ds : List Nat}
    (h : Char.codeUnits c ++ cs = Char.codeUnits d ++ ds) : c = d ∧ cs = ds := by
  have hc := Char.not_surrogate c
  have hd := Char.not_surrogate d
  have hnat : c.toNat = d.toNat ∧ cs = ds := by
    unfold Char.codeUnits at h
    split_ifs at h <;> simp only [List.cons_append, List.nil_append, List.cons.injEq] at h
    · exact h
    · omega
    · omega
    · obtain ⟨hhigh, hlow, hrest⟩ := h
      exact ⟨by omega, hrest⟩
  exact ⟨Char.toNat_inj.mp hnat.1, hnat.2⟩

theorem Char.codeUnits_ne_nil (c : Char) : Char.codeUnits c ≠ [] := by
  unfold Char.codeUnits
  split_ifs <;> exact List.cons_ne_nil _ _

theorem codeUnits_injective : Function.Injective codeUnits := by
  intro s t h
  apply String.toList_inj.mp
  unfold codeUnits at h
  generalize s.toList = cs at h ⊢
  generalize t.toList = ds at h ⊢
  induction cs generalizing ds with
  | nil =>
    cases ds with
    | nil => rfl
    | cons d ds => exact absurd (List.append_eq_nil_iff.mp h.symm).1 (Char.codeUnits_ne_nil d)
  | cons c cs ih =>
    cases ds with
    | nil => exact absurd (List.append_eq_nil_iff.mp h).1 (Char.codeUnits_ne_nil c)
    | cons d ds =>
      obtain ⟨rfl, hrest⟩ := Char.codeUnits_append_inj h
      rw [ih ds hrest]

instance : Std.TransCmp compareTo where
  eq_swap {s t} := @Std.OrientedCmp.eq_swap _ (List.compareLex compare) _ (codeUnits s) (codeUnits t)
  isLE_trans {s t u} := @Std.TransCmp.isLE_trans _ (List.compareLex compare) _ (codeUnits s)
    (codeUnits t) (codeUnits u)

/-- Only a text itself compares equal to it. -/
theorem compareTo_eq_iff {s t : String} : compareTo s t = .eq ↔ s = t := by
  rw [compareTo, Std.LawfulEqCmp.compare_eq_iff_eq]
  exact codeUnits_injective.eq_iff

end Lib
