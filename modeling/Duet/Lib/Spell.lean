import Duet.Lib.Transition
import Mathlib.Data.List.Induction

/-!
# Spells

Something that events begin, change and end: a value that is there from an event that begins it until
one that ends it. Where nothing changes it, it is enough that it began and that nothing ended it since.

## Main definitions

* `track` — what is there after one more event.
* `Spell` — what a list of events began, and what came of it since.

## Main results

* `foldl_track_eq_some` — what is there after events is what the last spell has come to.
-/

namespace Lib

variable {ε β : Type}

/-- An event begins something anew, or changes or ends what is there. -/
def track (begins : ε → Option β) (next : β → ε → Option β) (there : Option β) (e : ε) : Option β :=
  match begins e with
  | some b => some b
  | none => there.bind (next · e)

/-- The events began something that none of them has begun anew or ended since: it is `b` now. -/
def Spell (begins : ε → Option β) (next : β → ε → Option β) (events : List ε) (b : β) : Prop :=
  ∃ before e after a, events = before ++ e :: after ∧ begins e = some a ∧
    (∀ f ∈ after, begins f = none) ∧ run next a after = some b

variable {begins : ε → Option β} {next : β → ε → Option β} {events : List ε} {e : ε} {b : β}

theorem not_spell_nil : ¬Spell begins next [] b := by
  rintro ⟨before, e, after, a, hsplit, -⟩
  simp at hsplit

/-- One more event begins something, or goes on with what was there. -/
theorem spell_concat : Spell begins next (events ++ [e]) b ↔
    begins e = some b ∨ begins e = none ∧ ∃ c, Spell begins next events c ∧ next c e = some b := by
  constructor
  · rintro ⟨before, f, after, a, hsplit, hbegins, hkeeps, hrun⟩
    obtain ⟨rfl, rfl⟩ | ⟨rest, rfl, rfl⟩ := append_singleton_eq_split hsplit
    · obtain rfl := Option.some.inj hrun
      exact .inl hbegins
    · rw [run_append, Option.bind_eq_some_iff] at hrun
      obtain ⟨c, hc, hstep⟩ := hrun
      refine .inr ⟨hkeeps e (by simp), c, ⟨before, f, rest, a, rfl, hbegins, fun g hg => ?_, hc⟩, ?_⟩
      · exact hkeeps g (by simp [hg])
      · obtain ⟨t, ht, hrest⟩ := run_cons_eq_some.mp hstep
        exact ht.trans (by rw [← hrest]; rfl)
  · rintro (hbegins | ⟨hnone, c, ⟨before, f, after, a, rfl, hbegins, hkeeps, hrun⟩, hnext⟩)
    · exact ⟨events, e, [], b, rfl, hbegins, by simp, rfl⟩
    · refine ⟨before, f, after ++ [e], a, by simp, hbegins, fun g hg => ?_, ?_⟩
      · obtain hg | hg := List.mem_append.mp hg
        · exact hkeeps g hg
        · exact List.mem_singleton.mp hg ▸ hnone
      · rw [run_append, hrun]
        exact run_cons_eq_some.mpr ⟨b, hnext, rfl⟩

theorem foldl_track_eq_some :
    events.foldl (track begins next) none = some b ↔ Spell begins next events b := by
  induction events using List.reverseRecOn generalizing b with
  | nil => simp [not_spell_nil]
  | append_singleton events e ih =>
    rw [List.foldl_append, spell_concat]
    simp only [List.foldl_cons, List.foldl_nil, track]
    cases hbegins : begins e with
    | some a => simp
    | none => simp [Option.bind_eq_some_iff, ih]

end Lib
