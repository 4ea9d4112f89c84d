import Duet.Grocery.Item
import Duet.Lib.Sorting
import Mathlib.Data.List.Dedup

/-!
# `StaticItemCatalog.suggest`

The names that are suggested for what has been typed, ranked by how often the household added them.

## Main definitions

* `StaticItemCatalog.suggest` — the suggestions for a query.
* `StaticItemCatalog.timesRemembered` — how often a name has been added.

## Main results

* `StaticItemCatalog.suggest_eq_iff` — the suggestions after any additions, whatever their order and
  whichever sort it is.
-/

namespace Duet.Grocery.StaticItemCatalog

open Lib

section

variable (casing : Casing)

/-- A name as it is counted and looked up. -/
def normalized (name : String) : String := casing.toLowerCase (trim name)

/-- What was added most comes first, then what starts with the query, then by the alphabet. -/
def compareNames (times : String → Nat) (q a b : String) : Ordering :=
  let aPrefix := if q.toList.isPrefixOf a.toList then 0 else 1
  let bPrefix := if q.toList.isPrefixOf b.toList then 0 else 1
  (compare (times b) (times a)).then ((compare aPrefix bPrefix).then (compareTo a b))

/-- `_titleCase`. -/
def titleCase (value : String) : String :=
  " ".intercalate ((value.splitOn " ").map casing.capitalize)

def suggest (sorter : Sorter String) (frequency : Assoc String Nat) (query : String) : List String :=
  let q := normalized casing query
  if q.isEmpty then []
  else
    let names := (frequency.map (·.1) ++ known.map (·.1)).dedup
    let found := sorter.sort (compareNames (fun n => (frequency.get n).getD 0) q)
      (names.filter fun n => containsText n q)
    (found.take 6).map (titleCase casing)

/-- How often a name has been added. -/
def timesRemembered (names : List String) (n : String) : Nat :=
  names.countP fun name => !n.isEmpty && normalized casing name == n

/-- A name of the catalog, or one that has been added, that the query is a part of. -/
def Suggestible (names : List String) (q n : String) : Prop :=
  q ≠ "" ∧ (n ∈ known.map Prod.fst ∨ 0 < timesRemembered casing names n) ∧ containsText n q = true

end

section

variable {casing : Casing}

instance (times : String → Nat) (q : String) : Std.TransCmp (compareNames times q) := by
  have htimes : Std.TransCmp fun a b => compare (times b) (times a) :=
    @transCmp_on Nat (fun m n => compare n m) _ String times
  have hprefix : Std.TransCmp fun a b : String => compare
      (if q.toList.isPrefixOf a.toList then 0 else 1) (if q.toList.isPrefixOf b.toList then 0 else 1) :=
    transCmp_on fun a : String => if q.toList.isPrefixOf a.toList then (0 : Nat) else 1
  exact inferInstanceAs (Std.TransCmp (compareLex (fun a b => compare (times b) (times a))
    (compareLex (fun a b => compare (if q.toList.isPrefixOf a.toList then 0 else 1)
      (if q.toList.isPrefixOf b.toList then 0 else 1)) compareTo)))

theorem eq_of_compareNames {times : String → Nat} {q a b : String}
    (h : compareNames times q a b = .eq) : a = b := by
  simp only [compareNames, Ordering.then_eq_eq, compareTo_eq_iff] at h
  exact h.2.2

theorem get_remember (frequency : Assoc String Nat) (name n : String) :
    (remember casing frequency name).get n =
      if n ≠ "" ∧ normalized casing name = n then some ((frequency.get n).getD 0 + 1)
      else frequency.get n := by
  have hn : casing.toLowerCase (trim name) = normalized casing name := rfl
  simp only [remember, hn, String.isEmpty_iff]
  by_cases hempty : normalized casing name = ""
  · rw [if_pos hempty, if_neg]
    rintro ⟨hne, heq⟩
    exact hne (heq.symm.trans hempty)
  · rw [if_neg hempty, Assoc.get_set]
    by_cases heq : n = normalized casing name
    · subst heq
      rw [if_pos rfl, if_pos ⟨hempty, rfl⟩]
    · rw [if_neg heq, if_neg fun h => heq h.2.symm]

/-- What is counted is how often each name was added. -/
theorem get_foldl_remember (names : List String) (frequency : Assoc String Nat) (n : String) :
    (names.foldl (remember casing) frequency).get n =
      if timesRemembered casing names n = 0 then frequency.get n
      else some ((frequency.get n).getD 0 + timesRemembered casing names n) := by
  induction names generalizing frequency with
  | nil => rfl
  | cons name names ih =>
    have htimes : timesRemembered casing (name :: names) n = timesRemembered casing names n +
        if n ≠ "" ∧ normalized casing name = n then 1 else 0 := by
      simp [timesRemembered, List.countP_cons]
    rw [List.foldl_cons, ih, get_remember, htimes]
    split_ifs <;> simp_all
    omega

theorem times_foldl_remember (names : List String) (n : String) :
    ((names.foldl (remember casing) []).get n).getD 0 = timesRemembered casing names n := by
  rw [get_foldl_remember]
  split_ifs with h <;> simp [h]

theorem mem_keys_foldl_remember {names : List String} {n : String} :
    n ∈ (names.foldl (remember casing) []).map Prod.fst ↔ 0 < timesRemembered casing names n := by
  have hget := @get_foldl_remember casing names [] n
  rw [List.mem_map]
  constructor
  · rintro ⟨⟨k, v⟩, hmem, rfl⟩
    obtain ⟨w, hw⟩ := Assoc.exists_get_of_mem hmem
    by_contra hzero
    rw [if_pos (Nat.le_zero.mp (not_lt.mp hzero)), hw] at hget
    cases hget
  · intro hpos
    rw [if_neg hpos.ne'] at hget
    exact ⟨_, Assoc.mem_of_get hget, rfl⟩

/-- What is suggested once names have been added: up to six of the names that the query is a part of,
those that were added most, that start with it, and that the alphabet has first. -/
theorem suggest_eq_iff (casing : Casing) (sorter : Sorter String) (names : List String)
    (query : String) (shown : List String) :
    suggest casing sorter (names.foldl (remember casing) []) query = shown ↔
      ∃ suggested, shown = suggested.map (titleCase casing) ∧
        Leasts (compareNames (timesRemembered casing names) (normalized casing query)) 6
          (Suggestible casing names (normalized casing query)) suggested := by
  have hshows : ∃ suggested,
      suggest casing sorter (names.foldl (remember casing) []) query = suggested.map (titleCase casing) ∧
        Leasts (compareNames (timesRemembered casing names) (normalized casing query)) 6
          (Suggestible casing names (normalized casing query)) suggested := by
    simp only [suggest, times_foldl_remember, String.isEmpty_iff]
    by_cases hempty : normalized casing query = ""
    · rw [if_pos hempty]
      exact ⟨[], rfl, .nil fun n hn => hn.1 hempty⟩
    · rw [if_neg hempty]
      have hcmp : ∀ a b, compareNames (timesRemembered casing names) (normalized casing query) a b =
          .eq → a = b := fun a b => eq_of_compareNames
      refine ⟨_, rfl, (sorter.leasts_take_sort 6 ((List.nodup_dedup _).filter _)
        fun a _ b _ => hcmp a b).of_iff fun n => ?_⟩
      rw [List.mem_filter, List.mem_dedup, List.mem_append, mem_keys_foldl_remember, Suggestible,
        and_iff_right hempty, or_comm]
  obtain ⟨suggested, hsuggest, hleasts⟩ := hshows
  rw [hsuggest]
  constructor
  · rintro rfl
    exact ⟨suggested, rfl, hleasts⟩
  · rintro ⟨other, rfl, hother⟩
    rw [hleasts.unique hother]

end

end Duet.Grocery.StaticItemCatalog
