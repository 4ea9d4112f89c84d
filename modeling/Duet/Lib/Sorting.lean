import Mathlib.Data.List.Perm.Subperm
import Mathlib.Tactic.Common

/-!
# Sorting

A sort promises to keep the elements and to put none after one that it compares below. In which order
elements come that compare equal, it does not say.

## Main definitions

* `Sorter` — a sort of lists, for any comparison.
* `Leasts` — the least elements of a kind, in order, at most so many.

## Main results

* `Sorter.sort_eq_iff` — what a sort comes to, whichever sort it is.
* `Sorter.leasts_take_sort`, `Leasts.unique` — the first elements of what is sorted, and no others.
-/

namespace Lib

variable {α : Type}

/-- A sort of lists that keeps its promise for every comparison. -/
structure Sorter (α : Type) where
  sort : (α → α → Ordering) → List α → List α
  perm : ∀ cmp as, (sort cmp as).Perm as
  pairwise : ∀ cmp as, [Std.TransCmp cmp] → (sort cmp as).Pairwise fun a b => (cmp a b).isLE

/-- The least elements of a kind, in order: `count` of them, or all. -/
structure Leasts (cmp : α → α → Ordering) (count : Nat) (kind : α → Prop) (as : List α) : Prop where
  pairwise : as.Pairwise fun a b => cmp a b = .lt
  of_kind : ∀ a ∈ as, kind a
  length_le : as.length ≤ count
  least : ∀ b, kind b → b ∉ as → as.length = count ∧ ∀ a ∈ as, cmp a b = .lt

variable {cmp : α → α → Ordering} [Std.TransCmp cmp] {count : Nat} {kind : α → Prop}
  {as bs : List α}

/-- Elements compared by what is made of them. -/
theorem transCmp_on {β : Type} (f : β → α) : Std.TransCmp fun a b => cmp (f a) (f b) where
  eq_swap := Std.OrientedCmp.eq_swap
  isLE_trans := Std.TransCmp.isLE_trans

theorem isLE_total (a b : α) : ((cmp a b).isLE || (cmp b a).isLE) = true := by
  rw [@Std.OrientedCmp.eq_swap _ cmp _ b a]
  cases cmp a b <;> rfl

/-- The sort of the standard library. -/
def Sorter.merge (α : Type) : Sorter α where
  sort cmp as := as.mergeSort fun a b => (cmp a b).isLE
  perm _ as := as.mergeSort_perm _
  pairwise _ as _ := List.pairwise_mergeSort (fun _ _ _ => Std.TransCmp.isLE_trans) isLE_total as

theorem nodup_of_pairwise (h : as.Pairwise fun a b => cmp a b = .lt) : as.Nodup := by
  refine h.imp fun {a b} hlt heq => ?_
  subst heq
  exact Std.OrientedCmp.not_lt_of_lt hlt hlt

/-- Lists of the same elements are the same, where each compares its elements in order. -/
theorem eq_of_pairwise (has : as.Pairwise fun a b => cmp a b = .lt)
    (hbs : bs.Pairwise fun a b => cmp a b = .lt) (hmem : ∀ a, a ∈ as ↔ a ∈ bs) : as = bs := by
  have hperm : as.Perm bs :=
    (List.perm_ext_iff_of_nodup (nodup_of_pairwise has) (nodup_of_pairwise hbs)).mpr hmem
  refine hperm.eq_of_pairwise (fun a b _ _ hab hba => ?_) has hbs
  exact absurd hba (Std.OrientedCmp.not_lt_of_lt hab)

namespace Leasts

omit [Std.TransCmp cmp] in
theorem nil (h : ∀ a, ¬kind a) : Leasts cmp count kind [] where
  pairwise := .nil
  of_kind _ ha := absurd ha List.not_mem_nil
  length_le := Nat.zero_le _
  least b hb _ := absurd hb (h b)

omit [Std.TransCmp cmp] in
theorem of_iff {kind' : α → Prop} (has : Leasts cmp count kind as) (h : ∀ a, kind a ↔ kind' a) :
    Leasts cmp count kind' as where
  pairwise := has.pairwise
  of_kind a ha := (h a).mp (has.of_kind a ha)
  length_le := has.length_le
  least b hb := has.least b ((h b).mpr hb)

/-- What is among the least of its kind is so in every list of them. -/
theorem mem_of_mem (has : Leasts cmp count kind as) (hbs : Leasts cmp count kind bs) {a : α}
    (ha : a ∈ as) : a ∈ bs := by
  by_contra hnot
  obtain ⟨hfull, hbefore⟩ := hbs.least a (has.of_kind a ha) hnot
  have hsub : bs ⊆ as := by
    intro b hb
    by_contra hout
    exact Std.OrientedCmp.not_lt_of_lt (hbefore b hb) ((has.least b (hbs.of_kind b hb) hout).2 a ha)
  have hlength : (a :: bs).length ≤ as.length :=
    (List.Nodup.subperm (List.nodup_cons.mpr ⟨hnot, nodup_of_pairwise hbs.pairwise⟩)
      (List.cons_subset.mpr ⟨ha, hsub⟩)).length_le
  have hle := has.length_le
  rw [List.length_cons] at hlength
  omega

/-- There is only one list of them. -/
theorem unique (has : Leasts cmp count kind as) (hbs : Leasts cmp count kind bs) : as = bs :=
  eq_of_pairwise has.pairwise hbs.pairwise fun _ => ⟨has.mem_of_mem hbs, hbs.mem_of_mem has⟩

end Leasts

namespace Sorter

variable (sorter : Sorter α)

omit [Std.TransCmp cmp] in
theorem mem_sort {a : α} : a ∈ sorter.sort cmp as ↔ a ∈ as := (sorter.perm cmp as).mem_iff

/-- Elements that never compare equal come in a strict order. -/
theorem pairwise_sort (hnodup : as.Nodup) (hcmp : ∀ a ∈ as, ∀ b ∈ as, cmp a b = .eq → a = b) :
    (sorter.sort cmp as).Pairwise fun a b => cmp a b = .lt := by
  have hne : (sorter.sort cmp as).Pairwise (· ≠ ·) := (sorter.perm cmp as).nodup_iff.mpr hnodup
  refine ((sorter.pairwise cmp as).and hne).imp_of_mem fun {a b} ha hb ⟨hle, hab⟩ => ?_
  cases hcompare : cmp a b with
  | lt => rfl
  | eq => exact absurd (hcmp a (sorter.mem_sort.mp ha) b (sorter.mem_sort.mp hb) hcompare) hab
  | gt => rw [hcompare] at hle; cases hle

theorem sort_eq_iff (hnodup : as.Nodup) (hcmp : ∀ a ∈ as, ∀ b ∈ as, cmp a b = .eq → a = b) :
    sorter.sort cmp as = bs ↔
      (bs.Pairwise fun a b => cmp a b = .lt) ∧ ∀ a, a ∈ bs ↔ a ∈ as := by
  have hpairwise := sorter.pairwise_sort hnodup hcmp
  constructor
  · rintro rfl
    exact ⟨hpairwise, fun a => sorter.mem_sort⟩
  · rintro ⟨hbs, hmem⟩
    exact eq_of_pairwise hpairwise hbs fun a => sorter.mem_sort.trans (hmem a).symm

theorem leasts_take_sort (count : Nat) (hnodup : as.Nodup)
    (hcmp : ∀ a ∈ as, ∀ b ∈ as, cmp a b = .eq → a = b) :
    Leasts cmp count (· ∈ as) ((sorter.sort cmp as).take count) where
  pairwise := (sorter.pairwise_sort hnodup hcmp).sublist (List.take_sublist _ _)
  of_kind a ha := sorter.mem_sort.mp (List.mem_of_mem_take ha)
  length_le := List.length_take_le _ _
  least b hb hout := by
    have hpairwise := sorter.pairwise_sort hnodup hcmp
    rw [← List.take_append_drop count (sorter.sort cmp as), List.pairwise_append] at hpairwise
    have hmem : b ∈ (sorter.sort cmp as).take count ++ (sorter.sort cmp as).drop count := by
      rw [List.take_append_drop]
      exact sorter.mem_sort.mpr hb
    have hrest := (List.mem_append.mp hmem).resolve_left hout
    have hlength := List.length_pos_of_mem hrest
    rw [List.length_drop] at hlength
    exact ⟨List.length_take_of_le (by omega), fun a ha => hpairwise.2.2 a ha b hrest⟩

end Sorter

end Lib
