import Duet.Device.AudioAssetStore
import Duet.Grocery.Firestore
import Duet.Grocery.InMemory
import Duet.Lib.Transition

/-!
# The two grocery repositories

Both repositories are given the same calls at the same times. The in-memory one compares names
whatever their case, the other one looks for the name as it would be written.

## Main definitions

* `Groceries` — the two repositories, and the outcomes of their calls.
* `Groceries.Agree` — outcomes of one kind, and lists that are equal up to the ids.
* `Groceries.NamesAlike` — a name that is added, and that a live item has in any case, is the name of
  a live item.

## Main results

* `Groceries.agree_iff` — the repositories agree, and adding a name twice does nothing, exactly in
  the runs where names are alike.
-/

namespace Duet.Grocery

open Lib

variable {κ : Type} {casing : Casing} {catalog : ItemCatalog κ}

/-- Ids with different counters differ, whatever the clock said. -/
theorem InMemoryGroceryRepository.nextId_injective {m n : Nat} {t u : DateTime} (h : nextId m t = nextId n u) :
    m = n := by
  have hlists := congrArg String.toList h
  simp only [nextId, String.toList_append, List.append_assoc, List.append_cancel_left_eq] at hlists
  have hreversed := congrArg List.reverse hlists
  simp only [List.reverse_append, List.append_assoc] at hreversed
  have hm : '_' ∉ (Nat.repr m).toList.reverse := by simp
  have hn : '_' ∉ (Nat.repr n).toList.reverse := by simp
  have hdigits := eq_of_append_separator hm hn hreversed
  exact Nat.repr_injective (String.toList_injective (List.reverse_injective hdigits))

/-! ## Both repositories -/

/-- The two repositories, and the outcomes of their calls. -/
structure Groceries (κ : Type) where
  memory : InMemoryGroceryRepository κ
  cloud : FirestoreGroceryRepository κ
  outcomes : List (Except GroceryError (Option GroceryItem) × Except GroceryError (Option GroceryItem))

/-- A call at a time: its item has the id `cloudId` in the cloud, where a new item has `newId`. -/
structure GroceryStep where
  now : DateTime
  call : GroceryCall
  cloudId : String
  newId : String

namespace Groceries

/-- The same items on both sides. -/
def start (items : List GroceryItem) (catalog : κ) : Groceries κ where
  memory := ⟨items, 0, catalog⟩
  cloud := ⟨items.map fun item => (item.id, itemToMap item), catalog⟩
  outcomes := []

/-- A call is about one item on both sides, or about none, and a new id is new. -/
def enabled (s : Groceries κ) (e : GroceryStep) : Bool :=
  let ids := s.memory.items.map (·.id)
  let cloudIds := s.cloud.docs.map Prod.fst
  !cloudIds.contains e.newId &&
    match e.call.itemId? with
    | none => true
    | some id => (ids.zip cloudIds).contains (id, e.cloudId) ||
      (!ids.contains id && !cloudIds.contains e.cloudId)

section

variable (casing : Casing) (catalog : ItemCatalog κ)

/-- One call on both sides. -/
def step (s : Groceries κ) (e : GroceryStep) : Option (Groceries κ) :=
  if s.enabled e then
    let memory := s.memory.perform casing catalog e.now e.call
    let cloud := s.cloud.perform casing catalog e.now e.newId (e.call.withItemId e.cloudId)
    some ⟨memory.2, cloud.2, s.outcomes ++ [(memory.1, cloud.1)]⟩
  else none

/-- A name that an item of the list has is not added: the call returns an item that has it. -/
def RepeatsNothing (s : Groceries κ) (e : GroceryStep) : Prop :=
  s.enabled e = true → ∀ name by_, e.call = .addItem name by_ → (trim name).isEmpty = false →
    ((∃ item ∈ s.memory.items, item.Named casing name) →
      ∃ item ∈ s.memory.items, item.Named casing name ∧
        s.memory.perform casing catalog e.now e.call = (.ok (some item), s.memory)) ∧
    ∀ items, s.cloud.watchList e.now = some items → (∃ item ∈ items, item.Named casing name) →
      ∃ item ∈ items, item.Named casing name ∧
        s.cloud.perform casing catalog e.now e.newId e.call = (.ok (some item), s.cloud)

/-- A name that is added, and that a live item has in any case or as it would be written, is in this
case as it would be written, and a live item has it so. -/
def NamesAlike (s : Groceries κ) (e : GroceryStep) : Prop :=
  s.enabled e = true → ∀ name by_, e.call = .addItem name by_ → (trim name).isEmpty = false →
    ∀ item ∈ s.memory.items, item.isDeleted = false →
      casing.toLowerCase item.name = casing.toLowerCase (trim name) ∨
        item.name = casing.capitalize (trim name) →
      casing.toLowerCase (casing.capitalize (trim name)) = casing.toLowerCase (trim name) ∧
        ∃ other ∈ s.memory.items, other.isDeleted = false ∧
          other.name = casing.capitalize (trim name)

end

/-- Every call has outcomes of one kind, and the lists are equal up to the ids: as lists where the
items have been added one after the other, and up to their order else. -/
structure Agree (s : Groceries κ) : Prop where
  outcomes : ∀ outcome ∈ s.outcomes, outcome.1.isOk = outcome.2.isOk
  lists : ∃ rename : String → String, (s.memory.items.map (rename ·.id)).Nodup ∧
    ∀ now, ∃ items, s.cloud.watchList now = some items ∧
      items.Perm (s.memory.items.map fun item => { item with id := rename item.id }) ∧
      (s.memory.items.Pairwise (fun a b => a.addedAt.micros < b.addedAt.micros) →
        items = s.memory.items.map fun item => { item with id := rename item.id })

/-- The rows of both lists: every item, and the document that encodes it. -/
structure Linked (s : Groceries κ) (rows : List (GroceryItem × ItemDoc)) : Prop where
  items : s.memory.items = rows.map Prod.fst
  docs : s.cloud.docs = rows.map Prod.snd
  encodes : ∀ row ∈ rows, Encodes row.2.2 row.1
  nodup : (rows.map (·.1.id)).Nodup
  nodupDocs : (rows.map (·.2.1)).Nodup
  catalogs : s.memory.catalog = s.cloud.catalog
  fresh : ∀ row ∈ rows, ∀ n ≥ s.memory.seq, ∀ now,
    row.1.id ≠ InMemoryGroceryRepository.nextId n now
  outcomes : ∀ outcome ∈ s.outcomes, outcome.1.isOk = outcome.2.isOk

variable {s t : Groceries κ} {rows : List (GroceryItem × ItemDoc)}

/-! ### Linked repositories agree -/

/-- The ids of the rows, translated. -/
theorem exists_rename (hnodup : (rows.map (·.1.id)).Nodup) :
    ∃ rename : String → String, ∀ row ∈ rows, rename row.1.id = row.2.1 := by
  refine ⟨fun id => ((rows.find? (·.1.id == id)).map (·.2.1)).getD "", fun row hrow => ?_⟩
  simp [find?_of_nodup_map (f := fun row : GroceryItem × ItemDoc => row.1.id) hnodup hrow]

/-- The items of the rows as the cloud lists them. -/
theorem Linked.mapM (h : s.Linked rows) (now : DateTime) :
    (rows.map Prod.snd).mapM (fun doc => itemFromMap now doc.1 doc.2) =
      some (rows.map fun row => { row.1 with id := row.2.1 }) := by
  rw [List.mapM_map]
  exact mapM_eq_some_map fun row hrow => (h.encodes row hrow).itemFromMap now row.2.1

/-- All documents are listed. -/
theorem Linked.filter_docs (h : s.Linked rows) :
    (s.cloud.docs.filter fun doc => (doc.2.get "addedAt").isSome) = rows.map Prod.snd := by
  rw [h.docs]
  refine List.filter_eq_self.mpr fun doc hdoc => ?_
  obtain ⟨row, hrow, rfl⟩ := List.mem_map.mp hdoc
  rw [(h.encodes row hrow).addedAt]
  rfl

/-- Items that have been added one after the other are listed so. -/
theorem Linked.pairwise_docs (h : s.Linked rows)
    (hsorted : s.memory.items.Pairwise (fun a b => a.addedAt.micros < b.addedAt.micros)) :
    (rows.map Prod.snd).Pairwise FirestoreGroceryRepository.addedBefore := by
  rw [h.items, List.pairwise_map] at hsorted
  refine List.pairwise_map.mpr (hsorted.imp_of_mem fun {a b} ha hb hlt => .inl ?_)
  simpa [Fields.read, (h.encodes a ha).addedAt, (h.encodes b hb).addedAt, toTimestamp] using hlt

theorem Linked.agree (h : s.Linked rows) : s.Agree where
  outcomes := h.outcomes
  lists := by
    obtain ⟨rename, hrename⟩ := exists_rename h.nodup
    have hitems : (s.memory.items.map fun item => { item with id := rename item.id }) =
        rows.map fun row => { row.1 with id := row.2.1 } := by
      rw [h.items, List.map_map]
      exact List.map_congr_left fun row hrow => by simp [hrename row hrow]
    refine ⟨rename, ?_, fun now => ?_⟩
    · rw [h.items, List.map_map]
      have hids : (rows.map ((fun item : GroceryItem => rename item.id) ∘ Prod.fst)) =
          rows.map (·.2.1) := List.map_congr_left fun row hrow => hrename row hrow
      rw [hids]
      exact h.nodupDocs
    · rw [FirestoreGroceryRepository.watchList, h.filter_docs, hitems]
      obtain ⟨items, hlist, hperm⟩ := exists_mapM_of_perm
        (List.perm_insertionSort FirestoreGroceryRepository.addedBefore (rows.map Prod.snd))
        (h.mapM now)
      refine ⟨items, hlist, hperm, fun hsorted => ?_⟩
      rw [(h.pairwise_docs hsorted).insertionSort_eq, h.mapM now] at hlist
      exact (Option.some.inj hlist).symm

/-! ### What is linked stays linked -/

theorem Linked.exists_encodes (h : s.Linked rows) :
    ∀ doc ∈ s.cloud.docs, ∃ item, Encodes doc.2 item := by
  rw [h.docs]
  intro doc hdoc
  obtain ⟨row, hrow, rfl⟩ := List.mem_map.mp hdoc
  exact ⟨row.1, h.encodes row hrow⟩

theorem Linked.nodup_items (h : s.Linked rows) : (s.memory.items.map (·.id)).Nodup := by
  rw [h.items, List.map_map]
  exact h.nodup

theorem Linked.nodup_docs (h : s.Linked rows) : (s.cloud.docs.map Prod.fst).Nodup := by
  rw [h.docs, List.map_map]
  exact h.nodupDocs

/-- The rows change in place: each keeps its ids. -/
theorem Linked.map_rows (h : s.Linked rows) {change : GroceryItem × ItemDoc → GroceryItem × ItemDoc}
    (hid : ∀ row ∈ rows, (change row).1.id = row.1.id)
    (hdoc : ∀ row ∈ rows, (change row).2.1 = row.2.1)
    (hencodes : ∀ row ∈ rows, Encodes (change row).2.2 (change row).1)
    (hitems : t.memory.items = rows.map fun row => (change row).1)
    (hdocs : t.cloud.docs = rows.map fun row => (change row).2)
    (hseq : t.memory.seq = s.memory.seq) (hcatalogs : t.memory.catalog = t.cloud.catalog)
    (houtcomes : ∀ outcome ∈ t.outcomes, outcome.1.isOk = outcome.2.isOk) :
    t.Linked (rows.map change) where
  items := by rw [hitems, List.map_map]; rfl
  docs := by rw [hdocs, List.map_map]; rfl
  encodes := by
    intro row' hrow'
    obtain ⟨row, hrow, rfl⟩ := List.mem_map.mp hrow'
    exact hencodes row hrow
  nodup := by
    rw [List.map_map, List.map_congr_left (g := fun row => row.1.id) hid]
    exact h.nodup
  nodupDocs := by
    rw [List.map_map, List.map_congr_left (g := fun row => row.2.1) hdoc]
    exact h.nodupDocs
  catalogs := hcatalogs
  fresh := by
    intro row' hrow' n hn now
    obtain ⟨row, hrow, rfl⟩ := List.mem_map.mp hrow'
    rw [hid row hrow]
    exact h.fresh row hrow n (hseq ▸ hn) now
  outcomes := houtcomes

theorem Linked.outcomes_append (h : s.Linked rows)
    {outcome : Except GroceryError (Option GroceryItem) × Except GroceryError (Option GroceryItem)}
    (hkind : outcome.1.isOk = outcome.2.isOk) :
    ∀ outcome' ∈ s.outcomes ++ [outcome], outcome'.1.isOk = outcome'.2.isOk := by
  intro outcome' hmem
  obtain hold | hnew := List.mem_append.mp hmem
  · exact h.outcomes outcome' hold
  · rwa [List.mem_singleton.mp hnew]

/-- A call is about the item of a row and its document, or about none. -/
theorem Linked.row_of_enabled (h : s.Linked rows) {e : GroceryStep} (henabled : s.enabled e = true)
    {id : String} (hcall : e.call.itemId? = some id) :
    (∃ row ∈ rows, row.1.id = id ∧ row.2.1 = e.cloudId) ∨
      id ∉ s.memory.items.map (·.id) ∧ e.cloudId ∉ s.cloud.docs.map Prod.fst := by
  simp only [enabled, hcall, Bool.and_eq_true, Bool.or_eq_true] at henabled
  obtain ⟨-, hzip | hnone⟩ := henabled
  · left
    rw [List.contains_iff_mem, h.items, h.docs, List.map_map, List.map_map, List.zip_map'] at hzip
    obtain ⟨row, hrow, hids⟩ := List.mem_map.mp hzip
    exact ⟨row, hrow, congrArg Prod.fst hids, congrArg Prod.snd hids⟩
  · right
    simpa using hnone

@[simp] theorem itemId?_withItemId {call : GroceryCall} {id id' : String}
    (h : call.itemId? = some id) : (call.withItemId id').itemId? = some id' := by
  cases call with
  | addItem | clearDone => cases h
  | _ => rfl

@[simp] theorem change_withItemId (call : GroceryCall) (id : String) (now : DateTime) :
    (call.withItemId id).change now = call.change now := by
  cases call <;> rfl

/-- A call about an item keeps the repositories linked. -/
theorem Linked.step_item (h : s.Linked rows) {e : GroceryStep} {id : String}
    (hcall : e.call.itemId? = some id) (hstep : step casing catalog s e = some t) :
    ∃ rows', t.Linked rows' := by
  unfold step at hstep
  split_ifs at hstep with henabled
  obtain rfl := Option.some.inj hstep
  have hcall' : (e.call.withItemId e.cloudId).itemId? = some e.cloudId := itemId?_withItemId hcall
  obtain ⟨row, hrow, rfl, hdoc⟩ | ⟨hid, hdoc⟩ := h.row_of_enabled henabled hcall
  · have hmem : row.1 ∈ s.memory.items := h.items ▸ List.mem_map_of_mem hrow
    have hmemDoc : row.2 ∈ s.cloud.docs := h.docs ▸ List.mem_map_of_mem hrow
    have hmemory := s.memory.perform_item casing catalog e.now h.nodup_items hcall
      (List.mem_map_of_mem hmem)
    obtain ⟨data, hdata, hcloud⟩ := s.cloud.perform_item casing catalog e.now e.newId h.nodup_docs
      hcall' hmemDoc hdoc (h.encodes row hrow)
    rw [change_withItemId] at hdata
    have hsame : ∀ other ∈ rows, other.1.id = row.1.id ↔ other.2.1 = e.cloudId := by
      intro other hother
      constructor
      · intro heq
        rw [List.inj_on_of_nodup_map h.nodup hother hrow heq, hdoc]
      · intro heq
        rw [List.inj_on_of_nodup_map h.nodupDocs hother hrow (heq.trans hdoc.symm)]
    let change (other : GroceryItem × ItemDoc) : GroceryItem × ItemDoc :=
      if other.1.id = row.1.id then (e.call.change e.now other.1, (e.cloudId, data)) else other
    refine ⟨rows.map change, h.map_rows ?_ ?_ ?_ ?_ ?_ ?_ ?_ ?_⟩
    · intro other hother
      simp only [change]
      split_ifs
      · exact id_change e.now e.call other.1
      · rfl
    · intro other hother
      simp only [change]
      split_ifs with heq
      · exact ((hsame other hother).mp heq).symm
      · rfl
    · intro other hother
      simp only [change]
      split_ifs with heq
      · rw [List.inj_on_of_nodup_map h.nodup hother hrow heq]
        exact hdata
      · exact h.encodes other hother
    · rw [hmemory, h.items, List.map_map]
      refine List.map_congr_left fun other _ => ?_
      simp only [change, Function.comp_apply]
      split_ifs <;> rfl
    · rw [hcloud, h.docs, List.map_map]
      refine List.map_congr_left fun other hother => ?_
      simp only [change, Function.comp_apply, ← hsame other hother]
      split_ifs <;> rfl
    · rw [hmemory]
    · rw [hmemory, hcloud]
      exact h.catalogs
    · rw [hmemory, hcloud]
      exact h.outcomes_append rfl
  · obtain ⟨error, hmemory⟩ := s.memory.perform_missing casing catalog e.now hcall hid
    obtain ⟨error', hcloud⟩ := s.cloud.perform_missing casing catalog e.now e.newId hcall' hdoc
    rw [hmemory, hcloud]
    exact ⟨rows, { h with outcomes := h.outcomes_append rfl }⟩

/-- What an item says of its document. -/
theorem doneLive_eq {data : Fields} {item : GroceryItem} (h : Encodes data item) :
    FirestoreGroceryRepository.doneLive data = item.isDone := by
  rw [FirestoreGroceryRepository.doneLive, h.status, h.isDeletedFrom, GroceryItem.isDone]
  cases item.status <;> cases item.isDeleted <;> decide

/-- Clearing keeps the repositories linked. -/
theorem Linked.step_clearDone (h : s.Linked rows) {e : GroceryStep} {by_ : Collaborator}
    (hcall : e.call = .clearDone by_) (hstep : step casing catalog s e = some t) :
    ∃ rows', t.Linked rows' := by
  unfold step at hstep
  split_ifs at hstep with henabled
  obtain rfl := Option.some.inj hstep
  have hmemory : s.memory.perform casing catalog e.now e.call =
      (.ok none, s.memory.clearDoneCore e.now by_) := by
    rw [hcall]
    rfl
  have hcloud : s.cloud.perform casing catalog e.now e.newId (e.call.withItemId e.cloudId) =
      (.ok none, { s.cloud with
        docs := s.cloud.docs.map fun doc =>
          if FirestoreGroceryRepository.doneLive doc.2 then
            (doc.1, FirestoreGroceryRepository.written doc.2
              (FirestoreGroceryRepository.tombstoneUpdate e.now by_)) else doc }) := by
    rw [hcall]
    simp only [FirestoreGroceryRepository.perform, GroceryCall.withItemId,
      FirestoreGroceryRepository.clearDone_eq h.nodup_docs h.exists_encodes]
    rfl
  rw [InMemoryGroceryRepository.clearDoneCore_eq h.nodup_items] at hmemory
  let change (row : GroceryItem × ItemDoc) : GroceryItem × ItemDoc :=
    if row.1.isDone then (row.1.tombstoned by_ e.now, (row.2.1,
      FirestoreGroceryRepository.written row.2.2
        (FirestoreGroceryRepository.tombstoneUpdate e.now by_))) else row
  refine ⟨rows.map change, h.map_rows ?_ ?_ ?_ ?_ ?_ ?_ ?_ ?_⟩
  · intro row _
    simp only [change]
    split_ifs <;> rfl
  · intro row _
    simp only [change]
    split_ifs <;> rfl
  · intro row hrow
    simp only [change]
    split_ifs
    · exact FirestoreGroceryRepository.encodes_written_tombstone (h.encodes row hrow) by_ e.now
    · exact h.encodes row hrow
  · rw [hmemory, h.items, List.map_map]
    refine List.map_congr_left fun row _ => ?_
    simp only [change, Function.comp_apply]
    split_ifs <;> rfl
  · rw [hcloud, h.docs, List.map_map]
    refine List.map_congr_left fun row hrow => ?_
    simp only [change, Function.comp_apply, doneLive_eq (h.encodes row hrow)]
    split_ifs <;> rfl
  · rw [hmemory]
  · rw [hmemory, hcloud]
    exact h.catalogs
  · rw [hmemory, hcloud]
    exact h.outcomes_append rfl

theorem encodes_added (newId id name : String) (category : ItemCategory) (by_ : Collaborator)
    (now : DateTime) : Encodes (itemToMap (GroceryItem.added newId name category by_ now))
      (GroceryItem.added id name category by_ now) :=
  (encodes_itemToMap (GroceryItem.added newId name category by_ now)).withId id

/-- A new item keeps the repositories linked. -/
theorem Linked.add (h : s.Linked rows) {item : GroceryItem} {data : Fields} {newId : String}
    {now : DateTime} (hid : item.id = InMemoryGroceryRepository.nextId s.memory.seq now)
    (hnew : newId ∉ s.cloud.docs.map Prod.fst) (hencodes : Encodes data item)
    (hitems : t.memory.items = s.memory.items ++ [item]) (hseq : t.memory.seq = s.memory.seq + 1)
    (hdocs : t.cloud.docs = s.cloud.docs ++ [(newId, data)])
    (hcatalogs : t.memory.catalog = t.cloud.catalog)
    (houtcomes : ∀ outcome ∈ t.outcomes, outcome.1.isOk = outcome.2.isOk) :
    t.Linked (rows ++ [(item, (newId, data))]) where
  items := by rw [hitems, h.items, List.map_append]; rfl
  docs := by rw [hdocs, h.docs, List.map_append]; rfl
  encodes := by
    intro row hrow
    obtain hold | hadded := List.mem_append.mp hrow
    · exact h.encodes row hold
    · rw [List.mem_singleton.mp hadded]
      exact hencodes
  nodup := by
    rw [List.map_append]
    refine List.nodup_append.mpr ⟨h.nodup, List.nodup_singleton _, fun id hold id' hadded heq => ?_⟩
    obtain ⟨row, hrow, rfl⟩ := List.mem_map.mp hold
    refine h.fresh row hrow s.memory.seq le_rfl now ?_
    rw [heq, List.mem_singleton.mp hadded, ← hid]
  nodupDocs := by
    rw [List.map_append]
    refine List.nodup_append.mpr
      ⟨h.nodupDocs, List.nodup_singleton _, fun id hold id' hadded heq => hnew ?_⟩
    obtain rfl : id' = newId := List.mem_singleton.mp hadded
    rw [h.docs, List.map_map, ← heq]
    exact hold
  catalogs := hcatalogs
  fresh := by
    intro row hrow n hn later
    obtain hold | hadded := List.mem_append.mp hrow
    · exact h.fresh row hold n (by omega) later
    · rw [List.mem_singleton.mp hadded, hid]
      intro heq
      have hseqs := InMemoryGroceryRepository.nextId_injective heq
      omega
  outcomes := houtcomes

/-- The items of the cloud's list. -/
theorem Linked.mem_watchList (h : s.Linked rows) {now : DateTime} {items : List GroceryItem}
    (hitems : s.cloud.watchList now = some items) :
    items.Perm (rows.map fun row => { row.1 with id := row.2.1 }) := by
  rw [FirestoreGroceryRepository.watchList, h.filter_docs] at hitems
  obtain ⟨items', hlist, hperm⟩ := exists_mapM_of_perm
    (List.perm_insertionSort FirestoreGroceryRepository.addedBefore (rows.map Prod.snd))
    (h.mapM now)
  obtain rfl := Option.some.inj (hlist.symm.trans hitems)
  exact hperm

/-- What an add does in memory. -/
theorem Linked.memory_addItem (h : s.Linked rows) (casing : Casing) (catalog : ItemCatalog κ)
    (now : DateTime) {name : String} (by_ : Collaborator) (hname : (trim name).isEmpty = false) :
    (∃ row ∈ rows, row.1.Named casing name ∧
      s.memory.perform casing catalog now (.addItem name by_) = (.ok (some row.1), s.memory)) ∨
    (∀ row ∈ rows, ¬row.1.Named casing name) ∧ ∃ item, item =
        GroceryItem.added (InMemoryGroceryRepository.nextId s.memory.seq now)
          (casing.capitalize (trim name))
          (catalog.categorize (catalog.remember s.memory.catalog (trim name)) (trim name)) by_ now ∧
      s.memory.perform casing catalog now (.addItem name by_) = (.ok (some item), { s.memory with
        items := s.memory.items ++ [item]
        seq := s.memory.seq + 1
        catalog := catalog.remember s.memory.catalog (trim name) }) := by
  obtain ⟨item, hitem, hnamed, hperform⟩ | ⟨hnone, hadded⟩ :=
    s.memory.perform_addItem casing catalog now by_ hname
  · rw [h.items] at hitem
    obtain ⟨row, hrow, rfl⟩ := List.mem_map.mp hitem
    exact .inl ⟨row, hrow, hnamed, hperform⟩
  · exact .inr ⟨fun row hrow => hnone row.1 (h.items ▸ List.mem_map_of_mem hrow), hadded⟩

/-- What an add does in the cloud. -/
theorem Linked.cloud_addItem (h : s.Linked rows) (casing : Casing) (catalog : ItemCatalog κ)
    (now : DateTime) (newId : String) {name : String} (by_ : Collaborator)
    (hname : (trim name).isEmpty = false) :
    (∃ row ∈ rows, row.1.isDeleted = false ∧ row.1.name = casing.capitalize (trim name) ∧
      s.cloud.perform casing catalog now newId (.addItem name by_) =
        (.ok (some { row.1 with id := row.2.1 }), s.cloud)) ∨
    (∀ row ∈ rows, row.1.isDeleted = false → row.1.name ≠ casing.capitalize (trim name)) ∧
      ∃ item, item = GroceryItem.added newId (casing.capitalize (trim name))
        (catalog.categorize (catalog.remember s.cloud.catalog (trim name)) (trim name)) by_ now ∧
      s.cloud.perform casing catalog now newId (.addItem name by_) = (.ok (some item), { s.cloud with
        docs := s.cloud.docs ++ [(newId, itemToMap item)]
        catalog := catalog.remember s.cloud.catalog (trim name) }) := by
  obtain ⟨doc, hdoc, item, hitem, hlive, hnamed, hperform⟩ | ⟨hnone, hadded⟩ :=
    s.cloud.perform_addItem casing catalog now newId by_ hname h.exists_encodes
  · rw [h.docs] at hdoc
    obtain ⟨row, hrow, rfl⟩ := List.mem_map.mp hdoc
    have hsame : { row.1 with id := row.2.1 } = { item with id := row.2.1 } :=
      Option.some.inj (((h.encodes row hrow).itemFromMap now row.2.1).symm.trans
        (hitem.itemFromMap now row.2.1))
    refine .inl ⟨row, hrow, ?_, ?_, by rw [hsame]; exact hperform⟩
    · exact (congrArg GroceryItem.isDeleted hsame).trans hlive
    · exact (congrArg GroceryItem.name hsame).trans hnamed
  · exact .inr ⟨fun row hrow =>
      hnone row.2 (h.docs ▸ List.mem_map_of_mem hrow) row.1 (h.encodes row hrow), hadded⟩

theorem newId_of_enabled {e : GroceryStep} (henabled : s.enabled e = true) :
    e.newId ∉ s.cloud.docs.map Prod.fst := by
  simp only [enabled, Bool.and_eq_true, Bool.not_eq_true'] at henabled
  simpa using henabled.1

/-- Where names are alike, an add keeps the repositories linked. -/
theorem Linked.step_addItem (h : s.Linked rows) {e : GroceryStep} {name : String} {by_ : Collaborator}
    (hcall : e.call = .addItem name by_) (halike : NamesAlike casing s e)
    (hstep : step casing catalog s e = some t) : ∃ rows', t.Linked rows' := by
  unfold step at hstep
  split_ifs at hstep with henabled
  obtain rfl := Option.some.inj hstep
  have hcall' : e.call.withItemId e.cloudId = .addItem name by_ := by rw [hcall]; rfl
  rw [hcall, GroceryCall.withItemId]
  cases hname : (trim name).isEmpty with
  | true =>
    rw [InMemoryGroceryRepository.perform_unnamed casing catalog e.now by_ hname,
      FirestoreGroceryRepository.perform_unnamed casing catalog e.now e.newId by_ hname]
    exact ⟨rows, { h with outcomes := h.outcomes_append rfl }⟩
  | false =>
    have halike := halike henabled name by_ hcall hname
    obtain ⟨row, hrow, hnamed, hmemory⟩ | ⟨hunnamed, item, hitem, hmemory⟩ :=
      h.memory_addItem casing catalog e.now by_ hname
    · have hmem : row.1 ∈ s.memory.items := h.items ▸ List.mem_map_of_mem hrow
      obtain ⟨-, other, hother, hlive, hwritten⟩ := halike row.1 hmem hnamed.1 (.inl hnamed.2)
      obtain ⟨row', -, -, -, hcloud⟩ | ⟨hnone, -⟩ :=
        h.cloud_addItem casing catalog e.now e.newId by_ hname
      · rw [hmemory, hcloud]
        exact ⟨rows, { h with outcomes := h.outcomes_append rfl }⟩
      · rw [h.items] at hother
        obtain ⟨row', hrow', rfl⟩ := List.mem_map.mp hother
        exact absurd hwritten (hnone row' hrow' hlive)
    · obtain ⟨row, hrow, hlive, hwritten, -⟩ | ⟨-, item', hitem', hcloud⟩ :=
        h.cloud_addItem casing catalog e.now e.newId by_ hname
      · have hmem : row.1 ∈ s.memory.items := h.items ▸ List.mem_map_of_mem hrow
        obtain ⟨hlower, -⟩ := halike row.1 hmem hlive (.inr hwritten)
        exact absurd ⟨hlive, hwritten ▸ hlower⟩ (hunnamed row hrow)
      · have hencodes : Encodes (itemToMap item') item := by
          rw [hitem, hitem', h.catalogs]
          exact encodes_added _ _ _ _ _ _
        have hid : item.id = InMemoryGroceryRepository.nextId s.memory.seq e.now := by rw [hitem]; rfl
        rw [hmemory, hcloud]
        refine ⟨_, h.add hid (newId_of_enabled henabled) hencodes rfl rfl rfl ?_
          (h.outcomes_append rfl)⟩
        rw [h.catalogs]

/-- Where names are alike, every step keeps the repositories linked. -/
theorem Linked.of_step (h : s.Linked rows) {e : GroceryStep} (halike : NamesAlike casing s e)
    (hstep : step casing catalog s e = some t) : ∃ rows', t.Linked rows' := by
  cases hcall : e.call with
  | addItem name by_ => exact h.step_addItem hcall halike hstep
  | clearDone by_ => exact h.step_clearDone hcall hstep
  | _ => exact h.step_item (by rw [hcall]; rfl) hstep

/-- Where names are alike, a name that the list has is not added. -/
theorem Linked.repeatsNothing (h : s.Linked rows) {e : GroceryStep} (halike : NamesAlike casing s e) :
    RepeatsNothing casing catalog s e := by
  intro henabled name by_ hcall hname
  have halike := halike henabled name by_ hcall hname
  rw [hcall]
  constructor
  · rintro ⟨item, hitem, hnamed⟩
    obtain ⟨row, hrow, hnamed', hmemory⟩ | ⟨hunnamed, -⟩ :=
      h.memory_addItem casing catalog e.now by_ hname
    · exact ⟨row.1, h.items ▸ List.mem_map_of_mem hrow, hnamed', hmemory⟩
    · rw [h.items] at hitem
      obtain ⟨row, hrow, rfl⟩ := List.mem_map.mp hitem
      exact absurd hnamed (hunnamed row hrow)
  · rintro items hitems ⟨item, hitem, hnamed⟩
    have hperm := h.mem_watchList hitems
    obtain ⟨row, hrow, rfl⟩ := List.mem_map.mp (hperm.mem_iff.mp hitem)
    have hmem : row.1 ∈ s.memory.items := h.items ▸ List.mem_map_of_mem hrow
    obtain ⟨hlower, other, hother, hlive, hwritten⟩ := halike row.1 hmem hnamed.1 (.inl hnamed.2)
    obtain ⟨row', hrow', hlive', hwritten', hcloud⟩ | ⟨hnone, -⟩ :=
      h.cloud_addItem casing catalog e.now e.newId by_ hname
    · exact ⟨_, hperm.mem_iff.mpr (List.mem_map_of_mem hrow'), ⟨hlive', hwritten' ▸ hlower⟩, hcloud⟩
    · rw [h.items] at hother
      obtain ⟨row', hrow', rfl⟩ := List.mem_map.mp hother
      exact absurd hwritten (hnone row' hrow' hlive)

/-- Lists that agree are of one length. -/
theorem Agree.length_eq (h : s.Agree) (now : DateTime) :
    ∃ items, s.cloud.watchList now = some items ∧ items.length = s.memory.items.length := by
  obtain ⟨rename, -, hlists⟩ := h.lists
  obtain ⟨items, hitems, hperm, -⟩ := hlists now
  exact ⟨items, hitems, by simpa using hperm.length_eq⟩

/-- Names are alike where the lists agree after the call and a name that the list has is not added. -/
theorem Linked.namesAlike (h : s.Linked rows) {e : GroceryStep}
    (hstep : step casing catalog s e = some t) (hagree : t.Agree)
    (hrepeats : RepeatsNothing casing catalog s e) : NamesAlike casing s e := by
  intro henabled name by_ hcall hname item hitem hlive heq
  have hrepeats := hrepeats henabled name by_ hcall hname
  rw [step, if_pos henabled] at hstep
  obtain rfl := Option.some.inj hstep
  rw [hcall] at hrepeats hagree
  obtain ⟨items, hitems, hlength⟩ := h.agree.length_eq e.now
  have hperm := h.mem_watchList hitems
  obtain ⟨row, hrow, hnamed, hmemory⟩ | ⟨hunnamed, item', -, hmemory⟩ :=
    h.memory_addItem casing catalog e.now by_ hname
  · -- the cloud returns an item that has the name, which it has found as it would be written
    obtain ⟨found, -, hfound, hcloud⟩ := hrepeats.2 items hitems
      ⟨_, hperm.mem_iff.mpr (List.mem_map_of_mem hrow), hnamed⟩
    obtain ⟨row', hrow', hlive', hwritten, hcloud'⟩ | ⟨-, item', -, hcloud'⟩ :=
      h.cloud_addItem casing catalog e.now e.newId by_ hname
    · have hsame : { row'.1 with id := row'.2.1 } = found := by
        simpa using congrArg Prod.fst (hcloud'.symm.trans hcloud)
      rw [← hsame] at hfound
      exact ⟨hwritten ▸ hfound.2, row'.1, h.items ▸ List.mem_map_of_mem hrow', hlive', hwritten⟩
    · have hdocs := congrArg (fun left => left.2.docs) (hcloud'.symm.trans hcloud)
      simp at hdocs
  · obtain ⟨row', -, -, -, hcloud⟩ | ⟨hnone, -⟩ :=
      h.cloud_addItem casing catalog e.now e.newId by_ hname
    · -- memory has one item more
      obtain ⟨items', hitems', hlength'⟩ := hagree.length_eq e.now
      rw [hmemory] at hlength'
      rw [GroceryCall.withItemId, hcloud] at hitems'
      obtain rfl := Option.some.inj (hitems.symm.trans hitems')
      simp at hlength'
      omega
    · rw [h.items] at hitem
      obtain ⟨row', hrow', rfl⟩ := List.mem_map.mp hitem
      obtain hlower | hwritten := heq
      · exact absurd ⟨hlive, hlower⟩ (hunnamed row' hrow')
      · exact absurd hwritten (hnone row' hrow' hlive)

/-! ### Runs -/

/-- The rows at the start. -/
def startRows (items : List GroceryItem) : List (GroceryItem × ItemDoc) :=
  items.map fun item => (item, (item.id, itemToMap item))

theorem linked_start {items : List GroceryItem} (hnodup : (items.map (·.id)).Nodup)
    (hfresh : ∀ item ∈ items, ∀ n now, item.id ≠ InMemoryGroceryRepository.nextId n now)
    (state : κ) : (start items state).Linked (startRows items) := by
  have hrows : ∀ row ∈ startRows items, ∃ item ∈ items, row = (item, (item.id, itemToMap item)) := by
    intro row hrow
    obtain ⟨item, hitem, hrow⟩ := List.mem_map.mp hrow
    exact ⟨item, hitem, hrow.symm⟩
  refine ⟨?_, ?_, ?_, ?_, ?_, rfl, ?_, by simp [start]⟩
  · simp [start, startRows, Function.comp_def]
  · simp [start, startRows]
  · intro row hrow
    obtain ⟨item, -, heq⟩ := hrows row hrow
    rw [heq]
    dsimp only
    exact encodes_itemToMap item
  · simpa [startRows, Function.comp_def] using hnodup
  · simpa [startRows, Function.comp_def] using hnodup
  · intro row hrow n _ now
    obtain ⟨item, hitem, heq⟩ := hrows row hrow
    rw [heq]
    exact hfresh item hitem n now

/-- From linked repositories on, they agree and repeat nothing exactly in the runs where names are
alike. -/
theorem agree_iff_of_linked {steps : List GroceryStep} (h : s.Linked rows) :
    (Always (step casing catalog) Agree s steps ∧
      EachStep (step casing catalog) (RepeatsNothing casing catalog) s steps) ↔
        EachStep (step casing catalog) (NamesAlike casing) s steps := by
  induction steps generalizing s rows with
  | nil => exact ⟨fun _ => trivial, fun _ => ⟨h.agree, trivial⟩⟩
  | cons e steps ih =>
    constructor
    · rintro ⟨⟨-, hagree⟩, hrepeats, hrest⟩
      have halike : NamesAlike casing s e := by
        intro henabled
        have hstep : step casing catalog s e = some _ := if_pos henabled
        exact h.namesAlike hstep (hagree _ hstep).head hrepeats henabled
      refine ⟨halike, fun t hstep => ?_⟩
      obtain ⟨rows', ht⟩ := h.of_step halike hstep
      exact (ih ht).mp ⟨hagree t hstep, hrest t hstep⟩
    · rintro ⟨halike, hrest⟩
      refine ⟨⟨h.agree, fun t hstep => ?_⟩, h.repeatsNothing halike, fun t hstep => ?_⟩
      all_goals obtain ⟨rows', ht⟩ := h.of_step halike hstep
      · exact ((ih ht).mpr (hrest t hstep)).1
      · exact ((ih ht).mpr (hrest t hstep)).2

/-- From the same items on, with distinct ids of which none is one that memory generates, the
repositories agree and repeat nothing exactly in the runs where names are alike. -/
theorem agree_iff (casing : Casing) (catalog : ItemCatalog κ) (state : κ) {items : List GroceryItem}
    (hnodup : (items.map (·.id)).Nodup)
    (hfresh : ∀ item ∈ items, ∀ n now, item.id ≠ InMemoryGroceryRepository.nextId n now)
    (steps : List GroceryStep) :
    (Always (step casing catalog) Agree (start items state) steps ∧
      EachStep (step casing catalog) (RepeatsNothing casing catalog) (start items state) steps) ↔
        EachStep (step casing catalog) (NamesAlike casing) (start items state) steps :=
  agree_iff_of_linked (linked_start hnodup hfresh state)

/-! ### The starter list -/

/-- Ids that memory generates begin with `itm_`. -/
theorem ne_nextId {id : String} (h : (id.toList.head? == some 'i') = false) (n : Nat)
    (now : DateTime) : id ≠ InMemoryGroceryRepository.nextId n now := by
  rintro rfl
  have hhead : (InMemoryGroceryRepository.nextId n now).toList.head? = some 'i' := by
    simp only [InMemoryGroceryRepository.nextId, String.toList_append, List.append_assoc]
    rfl
  simp [hhead] at h

/-- The starter list, at the epoch. -/
def starterList : List GroceryItem := (GrocerySeed.initialList (.sinceEpoch 0)).getD []

/-- A call that is about an item with one id on both sides. -/
def callAt (micros : Fin 1000) (call : GroceryCall) (newId : String) : GroceryStep :=
  ⟨⟨micros, by omega⟩, call, call.itemId?.getD "", newId⟩

/-- Names are added twice, deleted, and added again. -/
def weeklyShop : List GroceryStep :=
  [callAt 1 (.addItem " bread " GrocerySeed.you) "bread",
    callAt 2 (.addItem "olive oil" GrocerySeed.dana) "oil",
    callAt 3 (.cycleStatus "seed_milk" GrocerySeed.you) "",
    callAt 4 (.setFlag "seed_eggs" (some .urgent) GrocerySeed.dana) "",
    callAt 5 (.reactOnIt "seed_eggs" GrocerySeed.sam) "",
    callAt 6 (.deleteItem "seed_bread" GrocerySeed.sam) "",
    callAt 7 (.addItem "bread" GrocerySeed.sam) "bread",
    callAt 8 (.restoreItem "seed_bread") "",
    callAt 9 (.addItem "bread" GrocerySeed.dana) "",
    callAt 10 (.clearDone GrocerySeed.you) ""]

/-- The repositories agree on a weekly shop exactly if its names are alike. -/
theorem agree_iff_weeklyShop :
    (Always (step .ascii (StaticItemCatalog .ascii)) Agree (start starterList []) weeklyShop ∧
      EachStep (step .ascii (StaticItemCatalog .ascii))
        (RepeatsNothing .ascii (StaticItemCatalog .ascii)) (start starterList []) weeklyShop) ↔
      EachStep (step .ascii (StaticItemCatalog .ascii)) (NamesAlike .ascii) (start starterList [])
        weeklyShop := by
  have hids : (starterList.all fun item => !(item.id.toList.head? == some 'i')) = true := by
    decide +kernel
  refine agree_iff .ascii (StaticItemCatalog .ascii) [] (by decide +kernel) (fun item hitem => ?_)
    weeklyShop
  exact ne_nextId (by simpa using List.all_eq_true.mp hids item hitem)

/-- A name that a live item has in other letters is added in the cloud alone. -/
theorem not_agree : ∃ t, run (step .ascii (StaticItemCatalog .ascii)) (start starterList [])
    [callAt 1 (.addItem "BREAD" GrocerySeed.you) "bread"] = some t ∧ ¬t.Agree := by
  have hrun : (run (step .ascii (StaticItemCatalog .ascii)) (start starterList [])
      [callAt 1 (.addItem "BREAD" GrocerySeed.you) "bread"]).map (fun t =>
        (t.memory.items.length, (t.cloud.watchList ⟨0, by decide⟩).map (·.length))) =
          some (7, some 8) := by decide +kernel
  obtain ⟨t, ht, hstate⟩ := Option.map_eq_some_iff.mp hrun
  obtain ⟨hmemory, hcloud⟩ := Prod.mk.inj hstate
  refine ⟨t, ht, fun hagree => ?_⟩
  obtain ⟨items, hitems, hlength⟩ := hagree.length_eq ⟨0, by decide⟩
  rw [hitems, Option.map_some, hlength, hmemory] at hcloud
  cases hcloud

end Groceries

end Duet.Grocery
