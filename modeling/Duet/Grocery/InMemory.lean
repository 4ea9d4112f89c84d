import Duet.Grocery.Item

/-!
# `InMemoryGroceryRepository`

The list is kept in memory, and every call replaces whole items. A call runs to its end at once.

## Main definitions

* `InMemoryGroceryRepository` — the list, the counter of the ids and the catalog.
* `InMemoryGroceryRepository.perform` — the outcome of a call, and what it leaves.

## Main results

* `perform_item`, `clearDoneCore_eq`, `perform_addItem` — what a call does to the list.
-/

namespace Duet.Grocery

open Lib

variable {κ : Type}

/-- The list, in the order of adding. -/
structure InMemoryGroceryRepository (κ : Type) where
  items : List GroceryItem
  seq : Nat
  catalog : κ

namespace InMemoryGroceryRepository

/-- `_requireItem`. -/
def requireItem (r : InMemoryGroceryRepository κ) (id : String) : Except GroceryError GroceryItem :=
  match r.items.find? (·.id == id) with
  | some item => .ok item
  | none => .error (.stateError s!"No grocery item with id \"{id}\"")

/-- `_activeByName`. -/
def activeByName (casing : Casing) (r : InMemoryGroceryRepository κ) (name : String) :
    Option GroceryItem :=
  r.items.find? fun item =>
    !item.isDeleted && casing.toLowerCase item.name == casing.toLowerCase name

/-- `_replace`. -/
def replace (r : InMemoryGroceryRepository κ) (updated : GroceryItem) :
    InMemoryGroceryRepository κ :=
  { r with items := r.items.map fun item => if item.id = updated.id then updated else item }

/-- `_nextId`. -/
def nextId (seq : Nat) (now : DateTime) : String := s!"itm_{seq}_{now.micros}"

/-- `_addCore`. -/
def addCore (casing : Casing) (catalog : ItemCatalog κ) (now : DateTime)
    (r : InMemoryGroceryRepository κ) (name : String) (by_ : Collaborator) :
    Except GroceryError (GroceryItem × InMemoryGroceryRepository κ) :=
  let trimmed := trim name
  if trimmed.isEmpty then .error (.argumentError "Item name cannot be empty")
  else match r.activeByName casing trimmed with
    | some existing => .ok (existing, r)
    | none =>
      let remembered := catalog.remember r.catalog trimmed
      let item := GroceryItem.added (nextId r.seq now) (casing.capitalize trimmed)
        (catalog.categorize remembered trimmed) by_ now
      .ok (item, { r with
        items := r.items ++ [item]
        seq := r.seq + 1
        catalog := remembered })

/-- `_setStatusCore`. -/
def setStatusCore (now : DateTime) (r : InMemoryGroceryRepository κ) (id : String)
    (status : ItemStatus) (by_ : Collaborator) :
    Except GroceryError (InMemoryGroceryRepository κ) := do
  let item ← r.requireItem id
  pure (r.replace (item.withStatus status by_ now))

/-- `_cycleCore`. -/
def cycleCore (now : DateTime) (r : InMemoryGroceryRepository κ) (id : String)
    (by_ : Collaborator) : Except GroceryError (InMemoryGroceryRepository κ) := do
  let item ← r.requireItem id
  r.setStatusCore now id item.status.next by_

/-- `_setFlagCore`. -/
def setFlagCore (now : DateTime) (r : InMemoryGroceryRepository κ) (id : String)
    (flag : Option ItemFlag) (by_ : Collaborator) :
    Except GroceryError (InMemoryGroceryRepository κ) := do
  let item ← r.requireItem id
  pure (r.replace (item.withFlag flag by_ now))

/-- `_reactCore`. -/
def reactCore (now : DateTime) (r : InMemoryGroceryRepository κ) (id : String)
    (by_ : Collaborator) : Except GroceryError (InMemoryGroceryRepository κ) := do
  let item ← r.requireItem id
  if item.reacted by_ then pure r else pure (r.replace (item.withReaction by_ now))

/-- `_deleteCore`. -/
def deleteCore (now : DateTime) (r : InMemoryGroceryRepository κ) (id : String)
    (by_ : Collaborator) : Except GroceryError (InMemoryGroceryRepository κ) := do
  let item ← r.requireItem id
  pure (r.replace (item.tombstoned by_ now))

/-- `_restoreCore`. -/
def restoreCore (now : DateTime) (r : InMemoryGroceryRepository κ) (id : String) :
    Except GroceryError (InMemoryGroceryRepository κ) := do
  let item ← r.requireItem id
  pure (r.replace (item.restored now))

/-- `_clearDoneCore`. -/
def clearDoneCore (now : DateTime) (r : InMemoryGroceryRepository κ) (by_ : Collaborator) :
    InMemoryGroceryRepository κ :=
  let doneIds := (r.items.filter (·.isDone)).map (·.id)
  if doneIds.isEmpty then r
  else { r with items := r.items.map fun item =>
    if item.id ∈ doneIds then item.tombstoned by_ now else item }

/-- The outcome of a call, and the repository after it. What throws leaves it as it was. -/
def perform (casing : Casing) (catalog : ItemCatalog κ) (now : DateTime)
    (r : InMemoryGroceryRepository κ) (call : GroceryCall) :
    Except GroceryError (Option GroceryItem) × InMemoryGroceryRepository κ :=
  let outcome : Except GroceryError (Option GroceryItem × InMemoryGroceryRepository κ) :=
    match call with
    | .addItem name by_ => (r.addCore casing catalog now name by_).map fun left => (some left.1, left.2)
    | .cycleStatus id by_ => (r.cycleCore now id by_).map (none, ·)
    | .setStatus id status by_ => (r.setStatusCore now id status by_).map (none, ·)
    | .setFlag id flag by_ => (r.setFlagCore now id flag by_).map (none, ·)
    | .reactOnIt id by_ => (r.reactCore now id by_).map (none, ·)
    | .deleteItem id by_ => (r.deleteCore now id by_).map (none, ·)
    | .restoreItem id => (r.restoreCore now id).map (none, ·)
    | .clearDone by_ => .ok (none, r.clearDoneCore now by_)
  match outcome with
  | .ok (item, left) => (.ok item, left)
  | .error error => (.error error, r)

/-! ### What a call does -/

section

variable {r : InMemoryGroceryRepository κ} {call : GroceryCall} {id : String} {now : DateTime}

theorem replace_eq (hnodup : (r.items.map (·.id)).Nodup) {item : GroceryItem} (hitem : item ∈ r.items)
    {f : GroceryItem → GroceryItem} (hid : (f item).id = item.id) :
    r.replace (f item) =
      { r with items := r.items.map fun other => if other.id = item.id then f other else other } := by
  unfold replace
  congr 1
  refine List.map_congr_left fun other hother => ?_
  rw [hid]
  split_ifs with heq
  · rw [List.inj_on_of_nodup_map hnodup hother hitem heq]
  · rfl

theorem replace_self (hnodup : (r.items.map (·.id)).Nodup) {item : GroceryItem}
    (hitem : item ∈ r.items) : r.replace item = r := by
  rw [replace_eq (f := fun other => other) hnodup hitem rfl]
  simp

theorem perform_missing (casing : Casing) (catalog : ItemCatalog κ) (now : DateTime)
    (hcall : call.itemId? = some id) (hid : id ∉ r.items.map (·.id)) :
    ∃ error, r.perform casing catalog now call = (.error error, r) := by
  have hfind : r.items.find? (·.id == id) = none := by
    refine List.find?_eq_none.mpr fun item hitem heq => hid ?_
    exact List.mem_map.mpr ⟨item, hitem, beq_iff_eq.mp heq⟩
  cases call with
  | addItem | clearDone => cases hcall
  | _ =>
    cases hcall
    exact ⟨_, by simp only [perform, cycleCore, setStatusCore, setFlagCore, reactCore, deleteCore,
      restoreCore, requireItem, hfind]; rfl⟩

/-- A call changes its item, and nothing else. -/
theorem perform_item (casing : Casing) (catalog : ItemCatalog κ) (now : DateTime)
    (hnodup : (r.items.map (·.id)).Nodup) (hcall : call.itemId? = some id)
    (hid : id ∈ r.items.map (·.id)) : r.perform casing catalog now call = (.ok none,
      { r with items := r.items.map fun item =>
        if item.id = id then call.change now item else item }) := by
  obtain ⟨item, hitem, rfl⟩ := List.mem_map.mp hid
  have hrequire : r.requireItem item.id = .ok item := by
    rw [requireItem, find?_of_nodup_map hnodup hitem]
  have hreplaced : r.replace (call.change now item) = { r with
      items := r.items.map fun other =>
        if other.id = item.id then call.change now other else other } :=
    replace_eq hnodup hitem (id_change now call item)
  rw [← hreplaced]
  cases call with
  | addItem | clearDone => cases hcall
  | cycleStatus | setStatus | setFlag | deleteItem | restoreItem =>
    cases hcall
    simp only [perform, cycleCore, setStatusCore, setFlagCore, deleteCore, restoreCore, hrequire]
    rfl
  | reactOnIt _ by_ =>
    cases hcall
    have hreact : r.reactCore now item.id by_ = if item.reacted by_ then .ok r
        else .ok (r.replace (item.withReaction by_ now)) := by
      rw [reactCore, hrequire]
      rfl
    simp only [perform, hreact, GroceryCall.change]
    cases item.reacted by_ with
    | false => rfl
    | true =>
      rw [if_pos rfl, if_pos rfl, replace_self hnodup hitem]
      rfl

/-- What is done is cleared, and nothing else. -/
theorem clearDoneCore_eq (hnodup : (r.items.map (·.id)).Nodup) (by_ : Collaborator) :
    r.clearDoneCore now by_ = { r with items := r.items.map fun item =>
      if item.isDone then item.tombstoned by_ now else item } := by
  have hdone : ∀ item ∈ r.items,
      item.id ∈ (r.items.filter (·.isDone)).map (·.id) ↔ item.isDone = true := by
    intro item hitem
    constructor
    · intro hmem
      obtain ⟨other, hother, heq⟩ := List.mem_map.mp hmem
      obtain ⟨hother, hisDone⟩ := List.mem_filter.mp hother
      rwa [← List.inj_on_of_nodup_map hnodup hother hitem heq]
    · exact fun hisDone => List.mem_map_of_mem (List.mem_filter.mpr ⟨hitem, hisDone⟩)
  have hmap : (r.items.map fun item => if item.id ∈ (r.items.filter (·.isDone)).map (·.id) then
      item.tombstoned by_ now else item) =
        r.items.map fun item => if item.isDone then item.tombstoned by_ now else item :=
    List.map_congr_left fun item hitem => by simp only [hdone item hitem]
  rw [clearDoneCore, ← hmap]
  split_ifs with hempty
  · simp [List.isEmpty_iff.mp hempty]
  · rfl

theorem perform_unnamed (casing : Casing) (catalog : ItemCatalog κ) (now : DateTime) {name : String}
    (by_ : Collaborator) (hname : (trim name).isEmpty = true) :
    r.perform casing catalog now (.addItem name by_) =
      (.error (.argumentError "Item name cannot be empty"), r) := by
  simp only [perform, addCore, hname]
  rfl

/-- A name is added unless a live item has it, in any case. -/
theorem perform_addItem (casing : Casing) (catalog : ItemCatalog κ) (now : DateTime) {name : String}
    (by_ : Collaborator) (hname : (trim name).isEmpty = false) :
    (∃ item ∈ r.items, item.Named casing name ∧
      r.perform casing catalog now (.addItem name by_) = (.ok (some item), r)) ∨
    (∀ item ∈ r.items, ¬item.Named casing name) ∧ ∃ item, item = GroceryItem.added (nextId r.seq now)
        (casing.capitalize (trim name))
        (catalog.categorize (catalog.remember r.catalog (trim name)) (trim name)) by_ now ∧
      r.perform casing catalog now (.addItem name by_) = (.ok (some item), { r with
        items := r.items ++ [item]
        seq := r.seq + 1
        catalog := catalog.remember r.catalog (trim name) }) := by
  cases hactive : r.activeByName casing (trim name) with
  | some item =>
    refine .inl ⟨item, List.mem_of_find?_eq_some hactive, ?_, ?_⟩
    · simpa [GroceryItem.Named] using List.find?_some hactive
    · simp only [perform, addCore, hname, hactive]
      rfl
  | none =>
    refine .inr ⟨fun item hitem hnamed => ?_, _, rfl, ?_⟩
    · refine List.find?_eq_none.mp hactive item hitem ?_
      simp [hnamed.1, hnamed.2]
    · simp only [perform, addCore, hname, hactive]
      rfl

end

end InMemoryGroceryRepository

end Duet.Grocery
