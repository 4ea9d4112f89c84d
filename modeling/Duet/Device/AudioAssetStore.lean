import Duet.Device.State
import Mathlib.Data.List.Basic
import Std.Data.String.ToNat

/-!
# `LocalAudioAssetStore`

Recordings under `audio_notes/`, keyed by a generated asset id. `pieceId` is ignored by the
on-device layout and left out.

`audioId_injective_seq`: ids generated with different counters differ, whatever the clock says.
-/

namespace Duet

open Lib Effect

/-- `_nextId`, at the given clock reading and counter. -/
def audioId (now : DateTime) (seq : Nat) : String := s!"audio_{now.micros}_{seq}"

/-- What follows the last separator of a list determines it. -/
theorem eq_of_append_separator {α : Type*} {sep : α} {as bs xs ys : List α}
    (hx : sep ∉ xs) (hy : sep ∉ ys) (h : as ++ sep :: xs = bs ++ sep :: ys) : xs = ys := by
  have hrev := congrArg List.reverse h
  simp only [List.reverse_append, List.reverse_cons, List.append_assoc, List.singleton_append]
    at hrev
  generalize as.reverse = as' at hrev
  generalize bs.reverse = bs' at hrev
  have hx' : sep ∉ xs.reverse := by simpa using hx
  have hy' : sep ∉ ys.reverse := by simpa using hy
  apply List.reverse_injective
  generalize xs.reverse = us at hrev hx'
  generalize ys.reverse = vs at hrev hy'
  induction us generalizing vs with
  | nil => cases vs <;> simp_all
  | cons u us ih =>
    cases vs with
    | nil => simp_all
    | cons v vs =>
      simp only [List.cons_append, List.cons.injEq] at hrev
      rw [hrev.1, ih (fun hm => hx' (List.mem_cons_of_mem _ hm)) vs hrev.2
        (fun hm => hy' (List.mem_cons_of_mem _ hm))]

theorem underscore_not_mem_repr (n : Nat) : '_' ∉ (Nat.repr n).toList := by
  intro h
  simp only [Nat.repr, String.toList_ofList] at h
  have := Nat.isDigit_of_mem_toDigits (by decide) (by decide) h
  simp at this

/-- Ids that end with different counters differ, whatever stands before. -/
theorem eq_of_counter {before before' : String} {m n : Nat}
    (h : before ++ "_" ++ Nat.repr m = before' ++ "_" ++ Nat.repr n) : m = n := by
  have hlists := congrArg String.toList h
  simp only [String.toList_append, List.append_assoc] at hlists
  have hdigits := eq_of_append_separator (underscore_not_mem_repr m) (underscore_not_mem_repr n)
    hlists
  exact Nat.repr_injective (String.toList_injective hdigits)

/-- Two ids generated with different counters differ, whatever the clock said. -/
theorem audioId_injective_seq {t u : DateTime} {m n : Nat} (h : audioId t m = audioId u n) :
    m = n := eq_of_counter h

/-- `put`: copy the file at `sourcePath` into the store under a fresh id. The counter advances even
when the copy fails. -/
def putAudio (env : Env) (entry : Nat) (sourcePath : String) : Action String := do
  let d ← get
  let id := audioId (env.clock (.putAudio entry)) d.audioSeq
  modify fun d => { d with audioSeq := d.audioSeq + 1 }
  env.await (.putAudio entry)
  let content ← orFail (d.files.get sourcePath) (.platform (.putAudio entry))
  modify fun d => { d with
    audioAssets := d.audioAssets.set id ⟨Path.extension sourcePath, content⟩ }
  pure id

/-- `pathFor`: the stored file of an asset. -/
def audioFileFor (assetId : String) : Action AudioAsset := do
  let d ← get
  orFail (d.audioAssets.get assetId) (.stateError s!"Unknown audio asset: {assetId}")

/-- `delete`: remove the asset's file, if there is one. -/
def deleteAudio (env : Env) (assetId : String) : Action Unit := do
  env.await (.deleteAsset assetId)
  modify fun d => { d with audioAssets := d.audioAssets.erase assetId }

end Duet
