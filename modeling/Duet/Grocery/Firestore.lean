import Duet.Cloud.Mappers
import Duet.Grocery.Item
import Mathlib.Data.List.Sort

/-!
# `FirestoreGroceryRepository`

Every item is a document, of which a call writes the fields that it changes. A transaction is one
step, and a batch is applied at once.

## Main definitions

* `itemToMap`, `itemFromMap` — an item and the fields of its document.
* `FirestoreGroceryRepository` — the documents and the catalog.
* `FirestoreGroceryRepository.perform` — the outcome of a call, and what it leaves.

## Main results

* `itemFromMap_itemToMap` — what is written is read back.
* `perform_item`, `clearDone_eq`, `perform_addItem` — what a call does to the documents.
-/

namespace Duet.Grocery

open Lib

/-! ## Names -/

namespace ItemStatus

def name : ItemStatus → String
  | needed => "needed"
  | inCart => "inCart"
  | done => "done"

def values : List ItemStatus := [needed, inCart, done]

end ItemStatus

namespace ItemFlag

def name : ItemFlag → String
  | outOfStock => "outOfStock"
  | getExtra => "getExtra"
  | urgent => "urgent"

def values : List ItemFlag := [outOfStock, getExtra, urgent]

end ItemFlag

namespace ItemCategory

def name : ItemCategory → String
  | produce => "produce"
  | dairy => "dairy"
  | bakery => "bakery"
  | meat => "meat"
  | seafood => "seafood"
  | frozen => "frozen"
  | pantry => "pantry"
  | snacks => "snacks"
  | beverages => "beverages"
  | household => "household"
  | other => "other"

def values : List ItemCategory :=
  [produce, dairy, bakery, meat, seafood, frozen, pantry, snacks, beverages, household, other]

end ItemCategory

/-- `statusFromName`. -/
def statusFromName (name : Option String) : ItemStatus :=
  (ItemStatus.values.find? fun status => some status.name == name).getD .needed

/-- `categoryFromName`. -/
def categoryFromName (name : Option String) : ItemCategory :=
  (ItemCategory.values.find? fun category => some category.name == name).getD .other

/-- `flagFromName`. -/
def flagFromName (name : Option String) : Option ItemFlag :=
  ItemFlag.values.find? fun flag => some flag.name == name

@[simp] theorem statusFromName_name (status : ItemStatus) :
    statusFromName (some status.name) = status := by
  cases status <;> decide

@[simp] theorem categoryFromName_name (category : ItemCategory) :
    categoryFromName (some category.name) = category := by
  cases category <;> decide

@[simp] theorem flagFromName_map_name (flag : Option ItemFlag) :
    flagFromName (flag.map (·.name)) = flag := by
  rcases flag with _ | _ | _ | _ <;> decide

/-! ## Documents -/

def collaboratorToMap (who : Collaborator) : Value :=
  mapOf [("id", .string who.id), ("name", .string who.name), ("colorValue", .int who.colorValue)]

/-- `toInt`. -/
def toInt (x : ℚ) : Int := x.num.tdiv x.den

/-- `collaboratorFromMap`, of a value that is a map. -/
def collaboratorFromMap (value : Value) : Option Collaborator := do
  let map ← value.asMap
  let id ← (map.read "id").asString
  let name ← (map.read "name").asString
  let colorValue ← (map.read "colorValue").asNum
  pure ⟨id, name, toInt colorValue⟩

def itemToMap (item : GroceryItem) : Fields :=
  Assoc.ofList [("name", .string item.name), ("category", .string item.category.name),
    ("addedBy", collaboratorToMap item.addedBy), ("addedAt", toTimestamp item.addedAt),
    ("status", .string item.status.name), ("statusBy", collaboratorToMap item.statusBy),
    ("statusAt", toTimestamp item.statusAt), ("updatedAt", toTimestamp item.updatedAt),
    ("flag", .ofOption .string (item.flag.map (·.name))),
    ("flagBy", .ofOption collaboratorToMap item.flagBy),
    ("reactions", .array (item.reactions.map collaboratorToMap)),
    ("isDeleted", .bool item.isDeleted), ("deletedBy", .ofOption collaboratorToMap item.deletedBy)]

/-- `_dateFrom`: what is not a timestamp reads as now. -/
def dateFrom (now : DateTime) : Value → Option DateTime
  | .timestamp micros => DateTime.ofTimestamp micros
  | _ => some now

/-- `data['isDeleted'] as bool? ?? false`. -/
def isDeletedFrom (data : Fields) : Option Bool :=
  ((data.read "isDeleted").orNull Value.asBool).map (·.getD false)

def itemFromMap (now : DateTime) (id : String) (data : Fields) : Option GroceryItem := do
  let reactions ← (data.read "reactions").orNull Value.asArray
  let name ← (data.read "name").asString
  let category ← (data.read "category").orNull Value.asString
  let addedBy ← collaboratorFromMap (data.read "addedBy")
  let addedAt ← dateFrom now (data.read "addedAt")
  let status ← (data.read "status").orNull Value.asString
  let statusBy ← collaboratorFromMap (data.read "statusBy")
  let statusAt ← dateFrom now (data.read "statusAt")
  let updatedAt ← dateFrom now (data.read "updatedAt")
  let flag ← (data.read "flag").orNull Value.asString
  let flagBy ← (data.read "flagBy").orNull collaboratorFromMap
  let reactions ← (reactions.getD []).mapM collaboratorFromMap
  let isDeleted ← isDeletedFrom data
  let deletedBy ← (data.read "deletedBy").orNull collaboratorFromMap
  pure ⟨id, name, categoryFromName category, addedBy, addedAt, statusFromName status, statusBy,
    statusAt, updatedAt, flagFromName flag, flagBy, reactions, isDeleted, deletedBy⟩

@[simp] theorem toInt_intCast (i : Int) : toInt i = i := by
  simp [toInt]

@[simp] theorem collaboratorFromMap_collaboratorToMap (who : Collaborator) :
    collaboratorFromMap (collaboratorToMap who) = some who := by
  simp [collaboratorFromMap, collaboratorToMap, mapOf, Assoc.ofList, Fields.read_set, Value.asNum]

@[simp] theorem orNull_collaboratorFromMap_ofOption (who : Option Collaborator) :
    (Value.ofOption collaboratorToMap who).orNull collaboratorFromMap = some who := by
  cases who with
  | none => rfl
  | some who =>
    change (collaboratorFromMap (collaboratorToMap who)).map some = _
    rw [collaboratorFromMap_collaboratorToMap, Option.map_some]

@[simp] theorem dateFrom_toTimestamp (now t : DateTime) : dateFrom now (toTimestamp t) = some t := by
  simp [dateFrom, toTimestamp, DateTime.ofTimestamp, t.inRange]

/-- The document has the fields of the item, whatever its id. -/
structure Encodes (data : Fields) (item : GroceryItem) : Prop where
  name : data.get "name" = some (.string item.name)
  category : data.get "category" = some (.string item.category.name)
  addedBy : data.get "addedBy" = some (collaboratorToMap item.addedBy)
  addedAt : data.get "addedAt" = some (toTimestamp item.addedAt)
  status : data.get "status" = some (.string item.status.name)
  statusBy : data.get "statusBy" = some (collaboratorToMap item.statusBy)
  statusAt : data.get "statusAt" = some (toTimestamp item.statusAt)
  updatedAt : data.get "updatedAt" = some (toTimestamp item.updatedAt)
  flag : data.get "flag" = some (.ofOption .string (item.flag.map (·.name)))
  flagBy : data.get "flagBy" = some (.ofOption collaboratorToMap item.flagBy)
  reactions : data.get "reactions" = some (.array (item.reactions.map collaboratorToMap))
  isDeleted : data.get "isDeleted" = some (.bool item.isDeleted)
  deletedBy : data.get "deletedBy" = some (.ofOption collaboratorToMap item.deletedBy)

theorem encodes_itemToMap (item : GroceryItem) : Encodes (itemToMap item) item := by
  constructor <;> simp [itemToMap, Assoc.ofList]

/-- The id is not a field. -/
theorem Encodes.withId {data : Fields} {item : GroceryItem} (h : Encodes data item) (id : String) :
    Encodes data { item with id := id } :=
  ⟨h.name, h.category, h.addedBy, h.addedAt, h.status, h.statusBy, h.statusAt, h.updatedAt, h.flag,
    h.flagBy, h.reactions, h.isDeleted, h.deletedBy⟩

theorem Encodes.isDeletedFrom {data : Fields} {item : GroceryItem} (h : Encodes data item) :
    isDeletedFrom data = some item.isDeleted := by
  simp [Grocery.isDeletedFrom, Fields.read, h.isDeleted]

/-- What a document encodes is read from it, with its id. -/
theorem Encodes.itemFromMap {data : Fields} {item : GroceryItem} (h : Encodes data item)
    (now : DateTime) (id : String) :
    itemFromMap now id data = some { item with id := id } := by
  have hreactions : (item.reactions.map collaboratorToMap).mapM collaboratorFromMap =
      some item.reactions := by
    simpa using mapM_map_eq_some (g := fun who => who) collaboratorFromMap_collaboratorToMap item.reactions
  simp [Grocery.itemFromMap, Fields.read, h.name, h.category, h.addedBy, h.addedAt, h.status,
    h.statusBy, h.statusAt, h.updatedAt, h.flag, h.flagBy, h.reactions, h.deletedBy,
    h.isDeletedFrom, hreactions]

/-- An item that is written is read back. -/
@[simp] theorem itemFromMap_itemToMap (now : DateTime) (item : GroceryItem) :
    itemFromMap now item.id (itemToMap item) = some item :=
  (encodes_itemToMap item).itemFromMap now item.id

/-! ## The repository -/

variable {κ : Type}

/-- A document, with its id. -/
abbrev ItemDoc := String × Fields

/-- The documents of the list, in the order of adding, which no query sees. -/
structure FirestoreGroceryRepository (κ : Type) where
  docs : List ItemDoc
  catalog : κ

namespace FirestoreGroceryRepository

/-- The documents with a value in a field, by id. -/
def whereEqual (docs : List ItemDoc) (field : String) (value : Value) : List ItemDoc :=
  (docs.filter fun doc => doc.2.get field == some value).insertionSort fun a b => a.1 ≤ b.1

/-- Documents by their time of adding, which is a timestamp in all of them, and by id. -/
def addedBefore (a b : ItemDoc) : Prop :=
  let s := (a.2.read "addedAt").asTimestamp.getD 0
  let t := (b.2.read "addedAt").asTimestamp.getD 0
  s < t ∨ s = t ∧ a.1 ≤ b.1

instance : DecidableRel addedBefore := fun a b => by unfold addedBefore; infer_instance

/-- `watchList`. -/
def watchList (now : DateTime) (r : FirestoreGroceryRepository κ) : Option (List GroceryItem) :=
  ((r.docs.filter fun doc => (doc.2.get "addedAt").isSome).insertionSort addedBefore).mapM
    fun doc => itemFromMap now doc.1 doc.2

/-- A document with some fields written. -/
def written (data : Fields) (fields : List (String × Value)) : Fields :=
  fields.foldl (fun data field => data.set field.1 field.2) data

/-- `update`. -/
def update (r : FirestoreGroceryRepository κ) (id : String) (fields : List (String × Value)) :
    Except GroceryError (FirestoreGroceryRepository κ) :=
  if id ∈ r.docs.map Prod.fst then
    .ok { r with docs := r.docs.map fun doc =>
      if doc.1 = id then (id, written doc.2 fields) else doc }
  else .error (.notFound id)

/-- A document is read in a transaction. -/
def require (now : DateTime) (r : FirestoreGroceryRepository κ) (id : String) :
    Except GroceryError GroceryItem :=
  match r.docs.find? (·.1 == id) with
  | none => .error (.stateError s!"No grocery item with id \"{id}\"")
  | some doc =>
    match itemFromMap now id doc.2 with
    | none => .error .typeError
    | some item => .ok item

/-- `_statusUpdate`. -/
def statusUpdate (now : DateTime) (status : ItemStatus) (by_ : Collaborator) :
    List (String × Value) :=
  [("status", .string status.name), ("statusBy", collaboratorToMap by_),
    ("statusAt", toTimestamp now), ("updatedAt", toTimestamp now)]

/-- The first document that is not deleted. -/
def firstLive (now : DateTime) : List ItemDoc → Except GroceryError (Option GroceryItem)
  | [] => .ok none
  | doc :: rest =>
    match isDeletedFrom doc.2 with
    | none => .error .typeError
    | some true => firstLive now rest
    | some false =>
      match itemFromMap now doc.1 doc.2 with
      | none => .error .typeError
      | some item => .ok (some item)

/-- The document of a new item has the id `newId`. -/
def addItem (casing : Casing) (catalog : ItemCatalog κ) (now : DateTime) (newId : String)
    (r : FirestoreGroceryRepository κ) (name : String) (by_ : Collaborator) :
    Except GroceryError (GroceryItem × FirestoreGroceryRepository κ) :=
  let trimmed := trim name
  if trimmed.isEmpty then .error (.argumentError "Item name cannot be empty")
  else do
    let titled := casing.capitalize trimmed
    match ← firstLive now (whereEqual r.docs "name" (.string titled)) with
    | some existing => pure (existing, r)
    | none =>
      let remembered := catalog.remember r.catalog trimmed
      let item := GroceryItem.added newId titled (catalog.categorize remembered trimmed) by_ now
      pure (item, { r with
        docs := r.docs ++ [(newId, itemToMap item)]
        catalog := remembered })

def cycleStatus (now : DateTime) (r : FirestoreGroceryRepository κ) (id : String)
    (by_ : Collaborator) : Except GroceryError (FirestoreGroceryRepository κ) := do
  let current ← r.require now id
  r.update id (statusUpdate now current.status.next by_)

def setStatus (now : DateTime) (r : FirestoreGroceryRepository κ) (id : String)
    (status : ItemStatus) (by_ : Collaborator) :
    Except GroceryError (FirestoreGroceryRepository κ) :=
  r.update id (statusUpdate now status by_)

/-- The fields of a flag; without a flag the reactions are written too. -/
def flagUpdate (now : DateTime) (flag : Option ItemFlag) (by_ : Collaborator) :
    List (String × Value) :=
  [("flag", .ofOption .string (flag.map (·.name))),
    ("flagBy", if flag.isNone then .null else collaboratorToMap by_)] ++
      (if flag.isNone then [("reactions", .array [])] else []) ++ [("updatedAt", toTimestamp now)]

def setFlag (now : DateTime) (r : FirestoreGroceryRepository κ) (id : String)
    (flag : Option ItemFlag) (by_ : Collaborator) :
    Except GroceryError (FirestoreGroceryRepository κ) :=
  r.update id (flagUpdate now flag by_)

/-- The fields of a reaction to an item. -/
def reactionUpdate (now : DateTime) (item : GroceryItem) (by_ : Collaborator) :
    List (String × Value) :=
  [("reactions", .array (item.reactions.map collaboratorToMap ++ [collaboratorToMap by_])),
    ("updatedAt", toTimestamp now)]

def reactOnIt (now : DateTime) (r : FirestoreGroceryRepository κ) (id : String)
    (by_ : Collaborator) : Except GroceryError (FirestoreGroceryRepository κ) := do
  let item ← r.require now id
  if item.reacted by_ then pure r
  else r.update id (reactionUpdate now item by_)

/-- The fields of a tombstone. -/
def tombstoneUpdate (now : DateTime) (by_ : Collaborator) : List (String × Value) :=
  [("isDeleted", .bool true), ("deletedBy", collaboratorToMap by_), ("updatedAt", toTimestamp now)]

def deleteItem (now : DateTime) (r : FirestoreGroceryRepository κ) (id : String)
    (by_ : Collaborator) : Except GroceryError (FirestoreGroceryRepository κ) :=
  r.update id (tombstoneUpdate now by_)

/-- The fields of an item that is restored. -/
def restoreUpdate (now : DateTime) : List (String × Value) :=
  [("isDeleted", .bool false), ("deletedBy", .null), ("updatedAt", toTimestamp now)]

def restoreItem (now : DateTime) (r : FirestoreGroceryRepository κ) (id : String) :
    Except GroceryError (FirestoreGroceryRepository κ) :=
  r.update id (restoreUpdate now)

/-- The documents that are not deleted. -/
def liveDocs : List ItemDoc → Option (List ItemDoc)
  | [] => some []
  | doc :: rest => do
    let isDeleted ← isDeletedFrom doc.2
    let live ← liveDocs rest
    pure (if isDeleted then live else doc :: live)

/-- The batch updates what is done and not deleted. -/
def clearDone (now : DateTime) (r : FirestoreGroceryRepository κ) (by_ : Collaborator) :
    Except GroceryError (FirestoreGroceryRepository κ) :=
  match liveDocs (whereEqual r.docs "status" (.string ItemStatus.done.name)) with
  | none => .error .typeError
  | some live =>
    if live.isEmpty then .ok r
    else .ok { r with docs := r.docs.map fun doc =>
      if doc.1 ∈ live.map Prod.fst then (doc.1, written doc.2 (tombstoneUpdate now by_)) else doc }

/-- The outcome of a call, and the repository after it. What throws leaves it as it was. -/
def perform (casing : Casing) (catalog : ItemCatalog κ) (now : DateTime) (newId : String)
    (r : FirestoreGroceryRepository κ) (call : GroceryCall) :
    Except GroceryError (Option GroceryItem) × FirestoreGroceryRepository κ :=
  let outcome : Except GroceryError (Option GroceryItem × FirestoreGroceryRepository κ) :=
    match call with
    | .addItem name by_ =>
      (r.addItem casing catalog now newId name by_).map fun left => (some left.1, left.2)
    | .cycleStatus id by_ => (r.cycleStatus now id by_).map (none, ·)
    | .setStatus id status by_ => (r.setStatus now id status by_).map (none, ·)
    | .setFlag id flag by_ => (r.setFlag now id flag by_).map (none, ·)
    | .reactOnIt id by_ => (r.reactOnIt now id by_).map (none, ·)
    | .deleteItem id by_ => (r.deleteItem now id by_).map (none, ·)
    | .restoreItem id => (r.restoreItem now id).map (none, ·)
    | .clearDone by_ => (r.clearDone now by_).map (none, ·)
  match outcome with
  | .ok (item, left) => (.ok item, left)
  | .error error => (.error error, r)

/-! ### What a document encodes when it is written -/

section

variable {data : Fields} {item : GroceryItem}

theorem encodes_written_status (h : Encodes data item) (status : ItemStatus) (by_ : Collaborator)
    (now : DateTime) :
    Encodes (written data (statusUpdate now status by_)) (item.withStatus status by_ now) := by
  constructor <;> simp [written, statusUpdate, GroceryItem.withStatus, h.name, h.category, h.addedBy,
    h.addedAt, h.flag, h.flagBy, h.reactions, h.isDeleted, h.deletedBy]

theorem encodes_written_flag (h : Encodes data item) (flag : Option ItemFlag) (by_ : Collaborator)
    (now : DateTime) :
    Encodes (written data (flagUpdate now flag by_)) (item.withFlag flag by_ now) := by
  cases flag <;> constructor <;> simp [written, flagUpdate, GroceryItem.withFlag, h.name, h.category,
    h.addedBy, h.addedAt, h.status, h.statusBy, h.statusAt, h.reactions, h.isDeleted, h.deletedBy,
    Value.ofOption]

theorem encodes_written_reaction (h : Encodes data item) (by_ : Collaborator) (now : DateTime) :
    Encodes (written data (reactionUpdate now item by_)) (item.withReaction by_ now) := by
  constructor <;> simp [written, reactionUpdate, GroceryItem.withReaction, h.name, h.category,
    h.addedBy, h.addedAt, h.status, h.statusBy, h.statusAt, h.flag, h.flagBy, h.isDeleted,
    h.deletedBy]

theorem encodes_written_tombstone (h : Encodes data item) (by_ : Collaborator) (now : DateTime) :
    Encodes (written data (tombstoneUpdate now by_)) (item.tombstoned by_ now) := by
  constructor <;> simp [written, tombstoneUpdate, GroceryItem.tombstoned, h.name, h.category,
    h.addedBy, h.addedAt, h.status, h.statusBy, h.statusAt, h.flag, h.flagBy, h.reactions,
    Value.ofOption]

theorem encodes_written_restored (h : Encodes data item) (now : DateTime) :
    Encodes (written data (restoreUpdate now)) (item.restored now) := by
  constructor <;> simp [written, restoreUpdate, GroceryItem.restored, h.name, h.category, h.addedBy,
    h.addedAt, h.status, h.statusBy, h.statusAt, h.flag, h.flagBy, h.reactions, Value.ofOption]

end

/-! ### What a call does -/

section

variable {r : FirestoreGroceryRepository κ} {call : GroceryCall} {id : String} {now : DateTime}

theorem update_missing (hid : id ∉ r.docs.map Prod.fst) (fields : List (String × Value)) :
    r.update id fields = .error (.notFound id) := if_neg hid

theorem perform_missing (casing : Casing) (catalog : ItemCatalog κ) (now : DateTime) (newId : String)
    (hcall : call.itemId? = some id) (hid : id ∉ r.docs.map Prod.fst) :
    ∃ error, r.perform casing catalog now newId call = (.error error, r) := by
  have hfind : r.docs.find? (·.1 == id) = none := by
    refine List.find?_eq_none.mpr fun doc hdoc heq => hid ?_
    exact List.mem_map.mpr ⟨doc, hdoc, beq_iff_eq.mp heq⟩
  cases call with
  | addItem | clearDone => cases hcall
  | cycleStatus | reactOnIt =>
    cases hcall
    exact ⟨_, by simp only [perform, cycleStatus, reactOnIt, require, hfind]; rfl⟩
  | setStatus | setFlag | deleteItem | restoreItem =>
    cases hcall
    exact ⟨_, by simp only [perform, setStatus, setFlag, deleteItem, restoreItem,
      update_missing hid]; rfl⟩

/-- Writing one document, which is the only one with its id. -/
theorem map_doc_eq (hnodup : (r.docs.map Prod.fst).Nodup) {doc : ItemDoc} (hdoc : doc ∈ r.docs)
    (f : Fields → Fields) :
    (r.docs.map fun other => if other.1 = doc.1 then (doc.1, f other.2) else other) =
      r.docs.map fun other => if other.1 = doc.1 then (doc.1, f doc.2) else other := by
  refine List.map_congr_left fun other hother => ?_
  split_ifs with heq
  · rw [List.inj_on_of_nodup_map hnodup hother hdoc heq]
  · rfl

theorem map_doc_self (hnodup : (r.docs.map Prod.fst).Nodup) {doc : ItemDoc} (hdoc : doc ∈ r.docs) :
    (r.docs.map fun other => if other.1 = doc.1 then (doc.1, doc.2) else other) = r.docs := by
  rw [← map_doc_eq hnodup hdoc (fun data => data)]
  refine (List.map_congr_left fun other _ => ?_).trans (List.map_id r.docs)
  split_ifs with heq
  · rw [← heq]
    rfl
  · rfl

theorem update_eq (hnodup : (r.docs.map Prod.fst).Nodup) {doc : ItemDoc} (hdoc : doc ∈ r.docs)
    (fields : List (String × Value)) :
    r.update doc.1 fields = .ok { r with docs := r.docs.map fun other =>
      if other.1 = doc.1 then (doc.1, written doc.2 fields) else other } := by
  rw [update, if_pos (List.mem_map_of_mem hdoc), map_doc_eq hnodup hdoc (written · fields)]

theorem require_eq (hnodup : (r.docs.map Prod.fst).Nodup) {doc : ItemDoc} (hdoc : doc ∈ r.docs)
    {item : GroceryItem} (hitem : Encodes doc.2 item) (now : DateTime) :
    r.require now doc.1 = .ok { item with id := doc.1 } := by
  rw [require, find?_of_nodup_map (f := Prod.fst) hnodup hdoc]
  simp only [hitem.itemFromMap]

/-- A call changes what the document of its item encodes, and nothing else. -/
theorem perform_item (casing : Casing) (catalog : ItemCatalog κ) (now : DateTime) (newId : String)
    (hnodup : (r.docs.map Prod.fst).Nodup) (hcall : call.itemId? = some id) {doc : ItemDoc}
    {item : GroceryItem} (hdoc : doc ∈ r.docs) (hid : doc.1 = id) (hitem : Encodes doc.2 item) :
    ∃ data, Encodes data (call.change now item) ∧
      r.perform casing catalog now newId call = (.ok none,
        { r with docs := r.docs.map fun other => if other.1 = id then (id, data) else other }) := by
  subst hid
  cases call with
  | addItem | clearDone => cases hcall
  | cycleStatus _ by_ =>
    cases hcall
    refine ⟨_, encodes_written_status hitem item.status.next by_ now, ?_⟩
    have hcycle : r.cycleStatus now doc.1 by_ =
        r.update doc.1 (statusUpdate now item.status.next by_) := by
      rw [cycleStatus, require_eq hnodup hdoc hitem]
      rfl
    simp only [perform, hcycle, update_eq hnodup hdoc]
    rfl
  | setStatus _ status by_ =>
    cases hcall
    refine ⟨_, encodes_written_status hitem status by_ now, ?_⟩
    simp only [perform, setStatus, update_eq hnodup hdoc]
    rfl
  | setFlag _ flag by_ =>
    cases hcall
    refine ⟨_, encodes_written_flag hitem flag by_ now, ?_⟩
    simp only [perform, setFlag, update_eq hnodup hdoc]
    rfl
  | reactOnIt _ by_ =>
    cases hcall
    have hreact : r.reactOnIt now doc.1 by_ = if item.reacted by_ then .ok r
        else r.update doc.1 (reactionUpdate now item by_) := by
      rw [reactOnIt, require_eq hnodup hdoc hitem]
      rfl
    simp only [perform, hreact, GroceryCall.change]
    cases item.reacted by_ with
    | false =>
      refine ⟨_, encodes_written_reaction hitem by_ now, ?_⟩
      simp only [Bool.false_eq_true, if_false, update_eq hnodup hdoc]
      rfl
    | true =>
      refine ⟨doc.2, hitem, ?_⟩
      rw [map_doc_self hnodup hdoc]
      rfl
  | deleteItem _ by_ =>
    cases hcall
    refine ⟨_, encodes_written_tombstone hitem by_ now, ?_⟩
    simp only [perform, deleteItem, update_eq hnodup hdoc]
    rfl
  | restoreItem =>
    cases hcall
    refine ⟨_, encodes_written_restored hitem now, ?_⟩
    simp only [perform, restoreItem, update_eq hnodup hdoc]
    rfl

/-! ### Queries -/

/-- The first live document that encodes an item, if there is one. -/
theorem firstLive_of_encodes {docs : List ItemDoc} (h : ∀ doc ∈ docs, ∃ item, Encodes doc.2 item)
    (now : DateTime) :
    (firstLive now docs = .ok none ∧
      ∀ doc ∈ docs, ∀ item, Encodes doc.2 item → item.isDeleted = true) ∨
    ∃ doc ∈ docs, ∃ item, Encodes doc.2 item ∧ item.isDeleted = false ∧
      firstLive now docs = .ok (some { item with id := doc.1 }) := by
  induction docs with
  | nil => exact .inl ⟨rfl, nofun⟩
  | cons doc rest ih =>
    obtain ⟨item, hitem⟩ := h doc List.mem_cons_self
    cases hdeleted : item.isDeleted with
    | false =>
      refine .inr ⟨doc, List.mem_cons_self, item, hitem, hdeleted, ?_⟩
      simp only [firstLive, hitem.isDeletedFrom, hdeleted, hitem.itemFromMap]
    | true =>
      have hskip : firstLive now (doc :: rest) = firstLive now rest := by
        simp only [firstLive, hitem.isDeletedFrom, hdeleted]
      rw [hskip]
      obtain ⟨hnone, hrest⟩ | ⟨doc', hdoc', hfirst⟩ :=
        ih fun doc hdoc => h doc (List.mem_cons_of_mem _ hdoc)
      · refine .inl ⟨hnone, fun doc' hdoc' item' hitem' => ?_⟩
        obtain rfl | hdoc' := List.mem_cons.mp hdoc'
        · exact (Option.some.inj (hitem'.isDeletedFrom.symm.trans hitem.isDeletedFrom)).trans hdeleted
        · exact hrest doc' hdoc' item' hitem'
      · exact .inr ⟨doc', List.mem_cons_of_mem _ hdoc', hfirst⟩

theorem liveDocs_of_encodes {docs : List ItemDoc} (h : ∀ doc ∈ docs, ∃ item, Encodes doc.2 item) :
    liveDocs docs = some (docs.filter fun doc => isDeletedFrom doc.2 == some false) := by
  induction docs with
  | nil => rfl
  | cons doc rest ih =>
    obtain ⟨item, hitem⟩ := h doc List.mem_cons_self
    simp only [liveDocs, ih fun doc hdoc => h doc (List.mem_cons_of_mem _ hdoc),
      hitem.isDeletedFrom]
    cases hdeleted : item.isDeleted <;> simp [hitem.isDeletedFrom, hdeleted]

theorem mem_whereEqual {docs : List ItemDoc} {field : String} {value : Value} {doc : ItemDoc} :
    doc ∈ whereEqual docs field value ↔ doc ∈ docs ∧ doc.2.get field = some value := by
  simp [whereEqual, List.mem_insertionSort]

/-- The document is of an item that is done and live. -/
def doneLive (data : Fields) : Bool :=
  data.get "status" == some (.string ItemStatus.done.name) && isDeletedFrom data == some false

/-- What is done and live is cleared, and nothing else. -/
theorem clearDone_eq (hnodup : (r.docs.map Prod.fst).Nodup)
    (hencodes : ∀ doc ∈ r.docs, ∃ item, Encodes doc.2 item) (by_ : Collaborator) :
    r.clearDone now by_ = .ok { r with
      docs := r.docs.map fun doc =>
        if doneLive doc.2 then (doc.1, written doc.2 (tombstoneUpdate now by_)) else doc } := by
  have hlive : liveDocs (whereEqual r.docs "status" (.string ItemStatus.done.name)) =
      some ((whereEqual r.docs "status" (.string ItemStatus.done.name)).filter
        fun doc => isDeletedFrom doc.2 == some false) :=
    liveDocs_of_encodes fun doc hdoc => hencodes doc (mem_whereEqual.mp hdoc).1
  rw [clearDone, hlive]
  generalize hdone : (whereEqual r.docs "status" (.string ItemStatus.done.name)).filter
    (fun doc => isDeletedFrom doc.2 == some false) = live
  have hmem : ∀ doc, doc ∈ live ↔ doc ∈ r.docs ∧
      doneLive doc.2 = true := by
    intro doc
    rw [← hdone, List.mem_filter, mem_whereEqual, and_assoc]
    simp [doneLive]
  have hids : ∀ doc ∈ r.docs, doc.1 ∈ live.map Prod.fst ↔
      doneLive doc.2 = true := by
    intro doc hdoc
    constructor
    · intro hid
      obtain ⟨other, hother, heq⟩ := List.mem_map.mp hid
      obtain ⟨hother, hisDone⟩ := (hmem other).mp hother
      rwa [← List.inj_on_of_nodup_map hnodup hother hdoc heq]
    · exact fun hisDone => List.mem_map_of_mem ((hmem doc).mpr ⟨hdoc, hisDone⟩)
  have hmap : (r.docs.map fun doc => if doc.1 ∈ live.map Prod.fst then
      (doc.1, written doc.2 (tombstoneUpdate now by_)) else doc) =
        r.docs.map fun doc => if doneLive doc.2 then
            (doc.1, written doc.2 (tombstoneUpdate now by_)) else doc :=
    List.map_congr_left fun doc hdoc => by simp only [hids doc hdoc]
  rw [← hmap]
  dsimp only
  split_ifs with hempty
  · simp [List.isEmpty_iff.mp hempty]
  · rfl

theorem perform_unnamed (casing : Casing) (catalog : ItemCatalog κ) (now : DateTime) (newId : String)
    {name : String} (by_ : Collaborator) (hname : (trim name).isEmpty = true) :
    r.perform casing catalog now newId (.addItem name by_) =
      (.error (.argumentError "Item name cannot be empty"), r) := by
  simp only [perform, addItem, hname]
  rfl

/-- A name is added unless a live item has it as it would be written. -/
theorem perform_addItem (casing : Casing) (catalog : ItemCatalog κ) (now : DateTime) (newId : String)
    {name : String} (by_ : Collaborator) (hname : (trim name).isEmpty = false)
    (hencodes : ∀ doc ∈ r.docs, ∃ item, Encodes doc.2 item) :
    (∃ doc ∈ r.docs, ∃ item, Encodes doc.2 item ∧ item.isDeleted = false ∧
      item.name = casing.capitalize (trim name) ∧
        r.perform casing catalog now newId (.addItem name by_) =
          (.ok (some { item with id := doc.1 }), r)) ∨
    (∀ doc ∈ r.docs, ∀ item, Encodes doc.2 item → item.isDeleted = false →
      item.name ≠ casing.capitalize (trim name)) ∧
      ∃ item, item = GroceryItem.added newId (casing.capitalize (trim name))
        (catalog.categorize (catalog.remember r.catalog (trim name)) (trim name)) by_ now ∧
      r.perform casing catalog now newId (.addItem name by_) = (.ok (some item), { r with
        docs := r.docs ++ [(newId, itemToMap item)]
        catalog := catalog.remember r.catalog (trim name) }) := by
  have hquery : ∀ doc ∈ whereEqual r.docs "name" (.string (casing.capitalize (trim name))),
      ∃ item, Encodes doc.2 item := fun doc hdoc => hencodes doc (mem_whereEqual.mp hdoc).1
  obtain ⟨hnone, hdeleted⟩ | ⟨doc, hdoc, item, hitem, hlive, hfirst⟩ :=
    firstLive_of_encodes hquery now
  · refine .inr ⟨fun doc hdoc item hitem hlive heq => ?_, _, rfl, ?_⟩
    · have hmem : doc ∈ whereEqual r.docs "name" (.string (casing.capitalize (trim name))) :=
        mem_whereEqual.mpr ⟨hdoc, heq ▸ hitem.name⟩
      simp [hdeleted doc hmem item hitem] at hlive
    · simp only [perform, addItem, hname, hnone]
      rfl
  · obtain ⟨hdoc, hget⟩ := mem_whereEqual.mp hdoc
    refine .inl ⟨doc, hdoc, item, hitem, hlive, ?_, ?_⟩
    · simpa using hitem.name.symm.trans hget
    · simp only [perform, addItem, hname, hfirst]
      rfl

end

end FirestoreGroceryRepository

end Duet.Grocery
