import Mathlib.Data.List.Basic

/-!
# Sorted association lists

A finite map as a list of `(key, value)` entries, written in key order. The list is a plain
`List`, so that it may stand under a nested inductive type and is evaluated by the kernel.

## Main definitions

* `Assoc.get` — the value of a key: that of its first entry.
* `Assoc.set` — write one key, keeping the entries in order.
* `Assoc.erase` — drop every entry of a key.
* `Assoc.put` — write one key of a map that keeps the order in which its keys came.

The laws below hold of every list of entries, sorted or not.
-/

namespace Lib

/-- A finite map: `(key, value)` entries. -/
abbrev Assoc (κ : Type*) (β : Type*) := List (κ × β)

namespace Assoc

variable {κ β : Type*} [DecidableEq κ]

/-- The value stored under `k`: its first entry. -/
def get : Assoc κ β → κ → Option β
  | [], _ => none
  | (k', v) :: rest, k => if k' = k then some v else get rest k

/-- Drop the entries of `k`. -/
def erase (m : Assoc κ β) (k : κ) : Assoc κ β := m.filter fun e => e.1 ≠ k

@[simp] theorem get_nil (k : κ) : get ([] : Assoc κ β) k = none := rfl

theorem get_cons (k' : κ) (v : β) (rest : Assoc κ β) (k : κ) :
    get ((k', v) :: rest) k = if k' = k then some v else get rest k := rfl

/-- Changing the values changes what is looked up. -/
theorem get_map {γ : Type*} (m : Assoc κ β) (f : β → γ) (k : κ) :
    get (m.map fun e => (e.1, f e.2)) k = (get m k).map f := by
  induction m with
  | nil => rfl
  | cons e rest ih =>
    rw [List.map_cons, get_cons, get_cons, ih]
    split_ifs <;> rfl

theorem mem_of_get {m : Assoc κ β} {k : κ} {v : β} (h : get m k = some v) : (k, v) ∈ m := by
  induction m with
  | nil => simp at h
  | cons e rest ih =>
    obtain ⟨k', v'⟩ := e
    rw [get_cons] at h
    by_cases hk : k' = k
    · rw [if_pos hk] at h
      simp_all
    · rw [if_neg hk] at h
      exact List.mem_cons_of_mem _ (ih h)

/-- A key with an entry has a value. -/
theorem exists_get_of_mem {m : Assoc κ β} {k : κ} {v : β} (h : (k, v) ∈ m) :
    ∃ w, get m k = some w := by
  induction m with
  | nil => simp at h
  | cons e rest ih =>
    obtain ⟨k', v'⟩ := e
    by_cases hk : k' = k
    · exact ⟨v', by rw [get_cons, if_pos hk]⟩
    · have hrest : (k, v) ∈ rest := by
        rcases List.mem_cons.mp h with heq | hrest
        · exact absurd (congrArg Prod.fst heq).symm hk
        · exact hrest
      obtain ⟨w, hw⟩ := ih hrest
      exact ⟨w, by rw [get_cons, if_neg hk, hw]⟩

/-- A key without an entry has no value. -/
theorem get_eq_none {m : Assoc κ β} {k : κ} (h : k ∉ m.map Prod.fst) : get m k = none := by
  rw [Option.eq_none_iff_forall_ne_some]
  intro v hget
  exact h (List.mem_map_of_mem (mem_of_get hget))

@[simp] theorem get_erase_self (m : Assoc κ β) (k : κ) : get (erase m k) k = none := by
  induction m with
  | nil => rfl
  | cons e rest ih =>
    obtain ⟨k', v⟩ := e
    by_cases hk : k' = k
    · simpa [erase, hk] using ih
    · have hkeep : erase ((k', v) :: rest) k = (k', v) :: erase rest k := by simp [erase, hk]
      rw [hkeep, get_cons, if_neg hk, ih]

@[simp] theorem get_erase_of_ne (m : Assoc κ β) {k k' : κ} (h : k' ≠ k) :
    get (erase m k) k' = get m k' := by
  induction m with
  | nil => rfl
  | cons e rest ih =>
    obtain ⟨l, v⟩ := e
    by_cases hl : l = k
    · have hdrop : erase ((l, v) :: rest) k = erase rest k := by simp [erase, hl]
      rw [hdrop, ih, get_cons, if_neg (by rw [hl]; exact h.symm)]
    · have hkeep : erase ((l, v) :: rest) k = (l, v) :: erase rest k := by simp [erase, hl]
      rw [hkeep, get_cons, get_cons, ih]

theorem get_erase (m : Assoc κ β) (k k' : κ) :
    get (erase m k) k' = if k' = k then none else get m k' := by
  by_cases h : k' = k
  · rw [if_pos h, h, get_erase_self]
  · rw [if_neg h, get_erase_of_ne m h]

/-- Erased keys have no entry, the others keep theirs. -/
theorem get_foldl_erase (m : Assoc κ β) (ks : List κ) (k : κ) :
    get (ks.foldl erase m) k = if k ∈ ks then none else get m k := by
  induction ks generalizing m with
  | nil => rfl
  | cons k' ks ih =>
    rw [List.foldl_cons, ih, get_erase]
    by_cases hk : k = k' <;> simp [hk]

/-- Erasing other keys does not touch an entry. -/
theorem get_foldl_erase_of_not_mem {ks : List κ} {k : κ} (h : k ∉ ks) (m : Assoc κ β) :
    get (ks.foldl erase m) k = get m k := by
  rw [get_foldl_erase, if_neg h]

/-- Every key has at most one entry. -/
def NodupKeys (m : Assoc κ β) : Prop := (m.map Prod.fst).Nodup

/-- Write `v` under `k`: in the place of its first entry, or at the end. -/
def put : Assoc κ β → κ → β → Assoc κ β
  | [], k, v => [(k, v)]
  | (k', v') :: rest, k, v => if k' = k then (k, v) :: rest else (k', v') :: put rest k v

theorem get_put (m : Assoc κ β) (k k' : κ) (v : β) :
    get (put m k v) k' = if k' = k then some v else get m k' := by
  induction m with
  | nil => simp [put, get_cons, eq_comm]
  | cons e rest ih =>
    obtain ⟨l, w⟩ := e
    simp only [put]
    split_ifs <;> simp_all [get_cons, eq_comm]

theorem mem_keys_put {m : Assoc κ β} {k k' : κ} {v : β} :
    k' ∈ (put m k v).map Prod.fst ↔ k' = k ∨ k' ∈ m.map Prod.fst := by
  induction m with
  | nil => simp [put]
  | cons e rest ih =>
    obtain ⟨l, w⟩ := e
    simp only [put]
    split_ifs <;> grind

theorem nodupKeys_put {m : Assoc κ β} (h : NodupKeys m) (k : κ) (v : β) : NodupKeys (put m k v) := by
  induction m with
  | nil => simp [put, NodupKeys]
  | cons e rest ih =>
    obtain ⟨l, w⟩ := e
    obtain ⟨hnew, hrest⟩ := List.nodup_cons.mp h
    simp only [put]
    split_ifs with hl
    · exact hl ▸ h
    · refine List.nodup_cons.mpr ⟨fun hmem => ?_, ih hrest⟩
      exact (mem_keys_put.mp hmem).elim hl hnew

theorem not_mem_keys_erase (m : Assoc κ β) (k : κ) : k ∉ (erase m k).map Prod.fst := by
  simp [erase]

theorem nodupKeys_erase {m : Assoc κ β} (h : NodupKeys m) (k : κ) : NodupKeys (erase m k) :=
  h.sublist (List.filter_sublist.map _)

theorem nodupKeys_foldl_erase {m : Assoc κ β} (h : NodupKeys m) (ks : List κ) :
    NodupKeys (ks.foldl erase m) := by
  induction ks generalizing m with
  | nil => exact h
  | cons k ks ih => exact ih (nodupKeys_erase h k)

theorem mem_iff_get {m : Assoc κ β} (h : NodupKeys m) {k : κ} {v : β} :
    (k, v) ∈ m ↔ get m k = some v := by
  refine ⟨fun hmem => ?_, mem_of_get⟩
  induction m with
  | nil => simp at hmem
  | cons e rest ih =>
    obtain ⟨k', v'⟩ := e
    obtain ⟨hnew, hrest⟩ := List.nodup_cons.mp h
    rcases List.mem_cons.mp hmem with heq | hmem
    · obtain ⟨rfl, rfl⟩ := Prod.mk.inj heq
      rw [get_cons, if_pos rfl]
    · have hne : k' ≠ k := by
        rintro rfl
        exact hnew (List.mem_map.mpr ⟨(k', v), hmem, rfl⟩)
      rw [get_cons, if_neg hne]
      exact ih hrest hmem

variable [LT κ] [DecidableLT κ]

/-- Write `v` under `k`: replace its first entry, or insert one before the first greater key. -/
def set : Assoc κ β → κ → β → Assoc κ β
  | [], k, v => [(k, v)]
  | (k', v') :: rest, k, v =>
    if k' = k then (k, v) :: rest
    else if k < k' then (k, v) :: (k', v') :: rest
    else (k', v') :: set rest k v

/-- The map holding the given entries (later entries win). -/
def ofList (entries : List (κ × β)) : Assoc κ β :=
  entries.foldl (fun m e => set m e.1 e.2) []

theorem get_set (m : Assoc κ β) (k k' : κ) (v : β) :
    get (set m k v) k' = if k' = k then some v else get m k' := by
  induction m with
  | nil => simp [set, get_cons, eq_comm]
  | cons e rest ih =>
    obtain ⟨l, w⟩ := e
    simp only [set]
    split_ifs <;> simp_all [get_cons, eq_comm]

@[simp] theorem get_set_self (m : Assoc κ β) (k : κ) (v : β) : get (set m k v) k = some v := by
  rw [get_set, if_pos rfl]

@[simp] theorem get_set_of_ne (m : Assoc κ β) {k k' : κ} (h : k' ≠ k) (v : β) :
    get (set m k v) k' = get m k' := by
  rw [get_set, if_neg h]

/-- Entries that do not name a key leave its value alone. -/
theorem get_foldl_set_of_not_mem {entries : List (κ × β)} {k : κ} (h : ∀ v, (k, v) ∉ entries)
    (m : Assoc κ β) : get (entries.foldl (fun m e => set m e.1 e.2) m) k = get m k := by
  induction entries generalizing m with
  | nil => rfl
  | cons e rest ih =>
    have hne : k ≠ e.1 := by
      rintro rfl
      exact h e.2 List.mem_cons_self
    rw [List.foldl_cons, ih (fun v hv => h v (List.mem_cons_of_mem _ hv)), get_set_of_ne _ hne]

/-- A key to which all its entries give one value has that value. -/
theorem get_foldl_set_of_unique {entries : List (κ × β)} {k : κ} {v : β} (hmem : (k, v) ∈ entries)
    (h : ∀ w, (k, w) ∈ entries → w = v) (m : Assoc κ β) :
    get (entries.foldl (fun m e => set m e.1 e.2) m) k = some v := by
  induction entries generalizing m with
  | nil => cases hmem
  | cons e rest ih =>
    rw [List.foldl_cons]
    by_cases hrest : (k, v) ∈ rest
    · exact ih hrest (fun w hw => h w (List.mem_cons_of_mem _ hw)) _
    · obtain rfl : (k, v) = e := (List.mem_cons.mp hmem).resolve_right hrest
      have hnone : ∀ w, (k, w) ∉ rest := fun w hw =>
        hrest (h w (List.mem_cons_of_mem _ hw) ▸ hw)
      rw [get_foldl_set_of_not_mem hnone, get_set_self]

/-- An entry after a write is the one that is written, or an old one. -/
theorem eq_or_mem_of_mem_set {m : Assoc κ β} {k : κ} {v : β} {e : κ × β} (h : e ∈ set m k v) :
    e = (k, v) ∨ e ∈ m := by
  induction m with
  | nil => simpa [set] using h
  | cons e' rest ih =>
    obtain ⟨l, w⟩ := e'
    simp only [set] at h
    split_ifs at h <;> grind

theorem mem_keys_set {m : Assoc κ β} {k k' : κ} {v : β}
    (h : k' ∈ (set m k v).map Prod.fst) : k' = k ∨ k' ∈ m.map Prod.fst := by
  induction m with
  | nil => simpa [set] using h
  | cons e rest ih =>
    obtain ⟨l, w⟩ := e
    simp only [set] at h
    split_ifs at h <;> grind

/-- Writing a new key keeps the keys apart. -/
theorem nodupKeys_set {m : Assoc κ β} (h : NodupKeys m) {k : κ} (hk : k ∉ m.map Prod.fst) (v : β) :
    NodupKeys (set m k v) := by
  induction m with
  | nil => simp [set, NodupKeys]
  | cons e rest ih =>
    obtain ⟨l, w⟩ := e
    obtain ⟨hnew, hrest⟩ := List.nodup_cons.mp h
    simp only [List.map_cons, List.mem_cons, not_or] at hk
    simp only [set, if_neg (Ne.symm hk.1)]
    split_ifs with hlt
    · exact List.nodup_cons.mpr ⟨by simpa using hk, h⟩
    · refine List.nodup_cons.mpr ⟨fun hmem => ?_, ih hrest hk.2⟩
      rcases mem_keys_set hmem with rfl | hmem
      · exact hk.1 rfl
      · exact hnew hmem

/-- The last of two writes under one key is the one that counts. -/
@[simp] theorem set_set (m : Assoc κ β) (k : κ) (v w : β) : set (set m k v) k w = set m k w := by
  induction m with
  | nil => simp [set]
  | cons e rest ih =>
    obtain ⟨l, u⟩ := e
    simp only [set]
    split_ifs <;> simp_all [set]

end Assoc

end Lib
