import Mathlib.Data.List.Basic
import Mathlib.Order.MinMax

/-!
# Registers with revisions

A value that carries its revision, and a register that takes an offered value only when its
revision is newer. Whatever the order of the offers and however often they are repeated, the
register ends up with the newest of them.

## Main results

* `offers_eq_newest` — the register holds the offer with the greatest revision.
* `offer_eq_of_le` — an offer that is not newer changes nothing.
-/

namespace Lib

/-- A value and its revision. -/
structure Revisioned (ρ α : Type*) where
  revision : ρ
  value : α

namespace Revisioned

variable {ρ α : Type*} [LinearOrder ρ]

/-- Take the offered value when it is newer. -/
def offer (r s : Revisioned ρ α) : Revisioned ρ α := if r.revision < s.revision then s else r

/-- Take the offers one after another. -/
def offers (r : Revisioned ρ α) (l : List (Revisioned ρ α)) : Revisioned ρ α := l.foldl offer r

@[simp] theorem offers_nil (r : Revisioned ρ α) : r.offers [] = r := rfl

@[simp] theorem offers_cons (r s : Revisioned ρ α) (l : List (Revisioned ρ α)) :
    r.offers (s :: l) = (r.offer s).offers l := rfl

theorem offer_eq_of_lt {r s : Revisioned ρ α} (h : r.revision < s.revision) : r.offer s = s :=
  if_pos h

theorem offer_eq_of_le {r s : Revisioned ρ α} (h : s.revision ≤ r.revision) : r.offer s = r :=
  if_neg (not_lt.mpr h)

theorem revision_offer (r s : Revisioned ρ α) :
    (r.offer s).revision = max r.revision s.revision := by
  unfold offer
  split_ifs with h
  · exact (max_eq_right h.le).symm
  · exact (max_eq_left (not_lt.mp h)).symm

/-- The register holds what it held or one of the offers. -/
theorem offers_mem (r : Revisioned ρ α) (l : List (Revisioned ρ α)) :
    r.offers l = r ∨ r.offers l ∈ l := by
  induction l generalizing r with
  | nil => exact .inl rfl
  | cons s l ih =>
    rw [offers_cons]
    unfold offer
    split_ifs with h
    · have := ih s
      grind
    · have := ih r
      grind

theorem revision_le_offers (r : Revisioned ρ α) (l : List (Revisioned ρ α)) :
    r.revision ≤ (r.offers l).revision ∧ ∀ s ∈ l, s.revision ≤ (r.offers l).revision := by
  induction l generalizing r with
  | nil => simp
  | cons s l ih =>
    obtain ⟨hr, hl⟩ := ih (r.offer s)
    rw [revision_offer, max_le_iff] at hr
    refine ⟨hr.1, ?_⟩
    intro t ht
    rcases List.mem_cons.mp ht with rfl | ht
    · exact hr.2
    · exact hl t ht

/-- The register ends up with the newest offer. -/
theorem offers_eq_newest {r s : Revisioned ρ α} {l : List (Revisioned ρ α)} (hs : s ∈ l)
    (hnewer : r.revision < s.revision) (hnewest : ∀ t ∈ l, t.revision ≤ s.revision)
    (hunique : ∀ t ∈ l, t.revision = s.revision → t = s) : r.offers l = s := by
  obtain ⟨hr, hl⟩ := revision_le_offers r l
  have hle := hl s hs
  rcases offers_mem r l with hsame | hmem
  · rw [hsame] at hle
    exact absurd hnewer (not_lt.mpr hle)
  · exact hunique _ hmem (le_antisymm (hnewest _ hmem) hle)

end Revisioned

end Lib
