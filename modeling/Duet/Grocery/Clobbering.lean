import Duet.Grocery.Household

/-!
# Shoppers that clobber each other

`addItem` and `clearDone` look at the list in a query and write to it later. What the others write in
between counts for nothing: an item that has been moved back is tombstoned all the same, and a name
that two clients look for at once is added twice.

## Main definitions

* `Shoppers.NotClobbered` — nothing has been cleared that was not done, and no name stands twice.
* `Shoppers.Apart` — nothing comes between a query and its write that the write would clobber.

## Main results

* `notClobbered_of_apart` — in a run where the shoppers stay apart nothing is clobbered.
-/

namespace Duet.Grocery

open Lib FirestoreGroceryRepository

variable {κ : Type} {casing : Casing} {catalog : ItemCatalog κ}

namespace GroceryCall

/-- The name that is added. -/
def name? : GroceryCall → Option String
  | addItem name _ => some name
  | _ => none

/-- An item that is done and live is not after it. -/
def leavesDone : GroceryCall → Bool
  | cycleStatus _ _ | deleteItem _ _ => true
  | setStatus _ status _ => status != .done
  | _ => false

def restores : GroceryCall → Bool
  | restoreItem _ => true
  | _ => false

end GroceryCall

/-- The document is of a live item with a name. -/
def Named (data : Fields) (name : String) : Prop :=
  ∃ item, Encodes data item ∧ item.isDeleted = false ∧ item.name = name

/-- The document is of an item that is done and live. -/
def Done (data : Fields) : Prop := ∃ item, Encodes data item ∧ item.isDone = true

namespace Shoppers

/-- What a batch has tombstoned was done and live when the batch was performed, so that what had been
moved back was left alone; and no two live items have one name. -/
structure NotClobbered (s : Shoppers κ) : Prop where
  cleared : ∀ doc ∈ s.state.cleared, Done doc.2
  names : ∀ doc ∈ s.state.docs, ∀ doc' ∈ s.state.docs, ∀ name, Named doc.2 name → Named doc'.2 name →
    doc.1 = doc'.1

/-- No live item has the name of an item, and none with it is on its way to its document. -/
def NameFree (s : Shoppers κ) (id : String) : Prop :=
  ∀ doc ∈ s.state.docs, doc.1 = id →
    (∀ other ∈ s.state.docs, isDeletedFrom other.2 = some false →
      other.2.get "name" = doc.2.get "name" → other.1 = id) ∧
    ∀ item ∈ s.sets, doc.2.get "name" ≠ some (.string item.name)

/-- What a call may come upon at the operation that it waits for. A name is looked for while none is
on its way that is equal; an item is moved off done, or tombstoned, while no batch has it; an item is
restored while its name is free; and a batch is performed while no other one has its items. -/
def ApartAt (casing : Casing) (s : Shoppers κ) (call : GroceryCall) : GroceryAwait → Prop
  | .get => ∀ name ∈ call.name?, ∀ item ∈ s.sets, item.name ≠ casing.capitalize (trim name)
  | .write => ∀ id ∈ call.itemId?, (call.leavesDone = true → ∀ ids ∈ s.batches, id ∉ ids) ∧
      (call.restores = true → s.NameFree id)
  | .set _ => True
  | .commit ids _ _ => ∀ ids' ∈ s.batches.erase ids, ∀ id ∈ ids, id ∉ ids'

/-- Nothing comes between a query and its write that the write would clobber. -/
def Apart (casing : Casing) (s : Shoppers κ) : ShopperEvent → Prop
  | .resume i reply => ∀ task ∈ s.running[i]?, reply.fails = false →
      ∀ point ∈ task.rest.point?, s.ApartAt casing task.call.call point
  | _ => True

instance (s : Shoppers κ) (id : String) : Decidable (s.NameFree id) := by
  unfold NameFree
  infer_instance

instance (s : Shoppers κ) (call : GroceryCall) (point : GroceryAwait) :
    Decidable (s.ApartAt casing call point) := by
  cases point <;> unfold ApartAt <;> infer_instance

instance (s : Shoppers κ) (e : ShopperEvent) : Decidable (s.Apart casing e) := by
  cases e <;> unfold Apart <;> infer_instance

/-- What is in a batch is done and live; no live item has the name of one on its way to its document,
and no two on their way have one name. -/
structure Inv (casing : Casing) (catalog : ItemCatalog κ) (s : Shoppers κ) : Prop where
  formed : s.WellFormed casing catalog
  notClobbered : s.NotClobbered
  batches : ∀ ids ∈ s.batches, ∀ id ∈ ids, ∃ doc ∈ s.state.docs, doc.1 = id ∧ Done doc.2
  unnamed : ∀ item ∈ s.sets, ∀ doc ∈ s.state.docs, ¬Named doc.2 item.name
  distinct : (s.sets.map (·.name)).Nodup

end Shoppers

/-! ## What a call does to an item -/

section

variable {data : Fields} {item : GroceryItem} {name : String} {call : GroceryCall} {now : DateTime}

theorem named_iff (h : Encodes data item) :
    Named data name ↔ item.isDeleted = false ∧ item.name = name := by
  refine ⟨fun ⟨item', hitem', hlive, hname⟩ => ?_, fun hnamed => ⟨item, h, hnamed⟩⟩
  rw [Shoppers.eq_of_encodes hitem' h]
  exact ⟨hlive, hname⟩

theorem done_iff (h : Encodes data item) : Done data ↔ item.isDone = true := by
  refine ⟨fun ⟨item', hitem', hdone⟩ => ?_, fun hdone => ⟨item, h, hdone⟩⟩
  rw [Shoppers.eq_of_encodes hitem' h]
  exact hdone

@[simp] theorem name_change : (call.change now item).name = item.name := by
  cases call with
  | reactOnIt id by_ =>
    simp only [GroceryCall.change]
    split_ifs <;> rfl
  | _ => rfl

/-- An item that is live after a call was live before, or is restored. -/
theorem live_of_change (h : (call.change now item).isDeleted = false) :
    item.isDeleted = false ∨ call.restores = true := by
  cases call with
  | reactOnIt id by_ =>
    simp only [GroceryCall.change] at h
    split_ifs at h <;> exact .inl h
  | deleteItem id by_ => cases h
  | restoreItem id => exact .inr rfl
  | _ => exact .inl h

/-- An item that is done and live stays so, unless the call moves it or tombstones it. -/
theorem isDone_change (h : item.isDone = true) (hcall : call.leavesDone = false) :
    (call.change now item).isDone = true := by
  cases call with
  | cycleStatus | deleteItem => cases hcall
  | setStatus id status by_ =>
    simp_all [GroceryCall.leavesDone, GroceryCall.change, GroceryItem.isDone,
      GroceryItem.withStatus]
  | reactOnIt id by_ =>
    simp only [GroceryCall.change]
    split_ifs <;> exact h
  | restoreItem id =>
    simp_all [GroceryCall.change, GroceryItem.isDone, GroceryItem.restored]
  | _ => exact h

end

/-! ## The steps -/

namespace Shoppers

variable {s t : Shoppers κ} {e : ShopperEvent}

theorem inv_start (catalogs : Nat → κ) : (start catalogs).Inv casing catalog where
  formed := wellFormed_start catalogs
  notClobbered := by constructor <;> simp [start, Lib.Isolate.start]
  batches := by simp [start, Lib.Isolate.start, batches, Lib.Isolate.collect]
  unnamed := by simp [start, Lib.Isolate.start]
  distinct := by simp [start, Lib.Isolate.start, sets, Lib.Isolate.collect]

/-- The documents stay, and so does what holds of them. -/
theorem Inv.rest (h : s.Inv casing catalog) (hformed : t.WellFormed casing catalog)
    (hdocs : t.state.docs = s.state.docs) (hcleared : t.state.cleared = s.state.cleared)
    {left : List GroceryItem} (hsets : s.sets.Perm (left ++ t.sets))
    (hbatches : ∀ ids ∈ t.batches, ∀ id ∈ ids, ∃ doc ∈ s.state.docs, doc.1 = id ∧ Done doc.2) :
    t.Inv casing catalog where
  formed := hformed
  notClobbered := ⟨hcleared ▸ h.notClobbered.cleared, hdocs ▸ h.notClobbered.names⟩
  batches := hdocs ▸ hbatches
  unnamed item hitem := hdocs ▸ h.unnamed item (hsets.mem_iff.mpr (List.mem_append_right _ hitem))
  distinct := by
    have hall := (hsets.map (·.name)).nodup_iff.mp h.distinct
    rw [List.map_append] at hall
    exact hall.of_append_right

/-- A call changes one item. -/
theorem Inv.changed (h : s.Inv casing catalog) (hformed : t.WellFormed casing catalog)
    {call : GroceryCall} {now : DateTime} {id : String} {doc : ItemDoc} {item : GroceryItem}
    {data : Fields} (hdoc : doc ∈ s.state.docs) (hid : doc.1 = id) (hitem : Encodes doc.2 item)
    (hdata : Encodes data (call.change now item))
    (hdocs : t.state.docs = s.state.docs.map fun other => if other.1 = id then (id, data) else other)
    (hcleared : t.state.cleared = s.state.cleared) (hsets : s.sets.Perm t.sets)
    (hbatches : t.batches ⊆ s.batches)
    (hleaves : call.leavesDone = true → ∀ ids ∈ s.batches, id ∉ ids)
    (hfree : call.restores = true → s.NameFree id) : t.Inv casing catalog := by
  have hnodup := h.formed.ids.of_append_left
  -- a document that has a name after the call had it before, or is the one that is restored
  have hnamed : ∀ other ∈ t.state.docs, ∀ name, Named other.2 name →
      (∃ old ∈ s.state.docs, old.1 = other.1 ∧ Named old.2 name) ∨
        other.1 = id ∧ call.restores = true ∧ item.name = name := by
    rw [hdocs]
    intro other hother name hname
    obtain ⟨old, hold, rfl⟩ := List.mem_map.mp hother
    split_ifs at hname ⊢ with heq
    · obtain ⟨hlive, rfl⟩ := (named_iff hdata).mp hname
      rw [name_change]
      obtain hlive | hrestores := live_of_change hlive
      · exact .inl ⟨doc, hdoc, hid, (named_iff hitem).mpr ⟨hlive, rfl⟩⟩
      · exact .inr ⟨rfl, hrestores, rfl⟩
    · exact .inl ⟨old, hold, rfl, hname⟩
  have hrestored : call.restores = true → ∀ old ∈ s.state.docs, Named old.2 item.name →
      old.1 = id := by
    rintro hrestores old hold ⟨item', hitem', hlive, hname⟩
    refine (hfree hrestores doc hdoc hid).1 old hold ?_ ?_
    · rw [hitem'.isDeletedFrom, hlive]
    · rw [hitem'.name, hitem.name, hname]
  refine ⟨hformed, ⟨hcleared ▸ h.notClobbered.cleared, ?_⟩, ?_, ?_, ?_⟩
  · intro other hother other' hother' name hname hname'
    obtain ⟨old, hold, heq, hnamed₁⟩ | ⟨heq, hrestores, rfl⟩ := hnamed other hother name hname <;>
      obtain ⟨old', hold', heq', hnamed₂⟩ | ⟨heq', hrestores', hname₂⟩ :=
        hnamed other' hother' _ hname'
    · rw [← heq, ← heq']
      exact h.notClobbered.names old hold old' hold' name hnamed₁ hnamed₂
    · rw [← heq, heq']
      exact hrestored hrestores' old hold (hname₂ ▸ hnamed₁)
    · rw [heq, ← heq']
      exact (hrestored hrestores old' hold' hnamed₂).symm
    · rw [heq, heq']
  · intro ids hids id' hid'
    obtain ⟨old, hold, rfl, hdone⟩ := h.batches ids (hbatches hids) id' hid'
    refine ⟨_, hdocs ▸ List.mem_map_of_mem hold, ?_⟩
    split_ifs with heq
    · obtain rfl := List.inj_on_of_nodup_map hnodup hold hdoc (heq.trans hid.symm)
      refine ⟨heq.symm, (done_iff hdata).mpr (isDone_change ((done_iff hitem).mp hdone) ?_)⟩
      by_contra hcall
      exact hleaves (by simpa using hcall) ids (hbatches hids) (heq ▸ hid')
    · exact ⟨rfl, hdone⟩
  · intro item' hitem' other hother hname
    have hpending := hsets.mem_iff.mpr hitem'
    obtain ⟨old, hold, -, hnamed⟩ | ⟨-, hrestores, hname⟩ := hnamed other hother _ hname
    · exact h.unnamed item' hpending old hold hnamed
    · exact (hfree hrestores doc hdoc hid).2 item' hpending (hname ▸ hitem.name)
  · exact (hsets.map _).nodup_iff.mp h.distinct

/-- A new item is written. -/
theorem Inv.added (h : s.Inv casing catalog) (hformed : t.WellFormed casing catalog)
    {item : GroceryItem} (hitem : item ∈ s.sets)
    (hdocs : t.state.docs = s.state.docs ++ [(item.id, itemToMap item)])
    (hcleared : t.state.cleared = s.state.cleared) (hsets : s.sets.Perm (item :: t.sets))
    (hbatches : t.batches ⊆ s.batches) : t.Inv casing catalog := by
  have hnew : ∀ name, Named (itemToMap item) name → item.name = name := fun name hname =>
    ((named_iff (encodes_itemToMap item)).mp hname).2
  have hdistinct := (hsets.map (·.name)).nodup_iff.mp h.distinct
  obtain ⟨hfresh, hdistinct⟩ := List.nodup_cons.mp hdistinct
  -- the document is not computed when a goal is looked at
  generalize itemToMap item = data at hdocs hnew
  refine ⟨hformed, ⟨hcleared ▸ h.notClobbered.cleared, ?_⟩, ?_, ?_, hdistinct⟩
  · rw [hdocs]
    intro doc hdoc doc' hdoc' name hname hname'
    obtain hdoc | hdoc := List.mem_append.mp hdoc <;> obtain hdoc' | hdoc' := List.mem_append.mp hdoc'
    · exact h.notClobbered.names doc hdoc doc' hdoc' name hname hname'
    · obtain rfl := List.mem_singleton.mp hdoc'
      obtain rfl := hnew name hname'
      exact absurd hname (h.unnamed item hitem doc hdoc)
    · obtain rfl := List.mem_singleton.mp hdoc
      obtain rfl := hnew name hname
      exact absurd hname' (h.unnamed item hitem doc' hdoc')
    · rw [List.mem_singleton.mp hdoc, List.mem_singleton.mp hdoc']
  · intro ids hids id hid
    obtain ⟨doc, hdoc, heq, hdone⟩ := h.batches ids (hbatches hids) id hid
    exact ⟨doc, hdocs ▸ List.mem_append_left _ hdoc, heq, hdone⟩
  · rw [hdocs]
    intro item' hitem' doc hdoc hname
    obtain hdoc | hdoc := List.mem_append.mp hdoc
    · exact h.unnamed item' (hsets.mem_iff.mpr (List.mem_cons_of_mem _ hitem')) doc hdoc hname
    · obtain rfl := List.mem_singleton.mp hdoc
      exact hfresh (List.mem_map.mpr ⟨item', hitem', (hnew _ hname).symm⟩)

/-- A batch is performed. -/
theorem Inv.committed (h : s.Inv casing catalog) (hformed : t.WellFormed casing catalog)
    {ids : List String} {by_ : Collaborator} {now : DateTime}
    (hstate : t.state = s.state.commit ids by_ now) (hsets : s.sets.Perm t.sets)
    (hbatches : s.batches.Perm (ids :: t.batches))
    (hapart : ∀ ids' ∈ t.batches, ∀ id ∈ ids, id ∉ ids') : t.Inv casing catalog := by
  have hnodup := h.formed.ids.of_append_left
  -- what the batch has tombstoned is not live
  have hnamed : ∀ other ∈ (s.state.commit ids by_ now).docs, ∀ name, Named other.2 name →
      other ∈ s.state.docs := by
    intro other hother name hname
    obtain ⟨old, hold, rfl⟩ := List.mem_map.mp hother
    obtain ⟨item, hitem⟩ := h.formed.encodes old hold
    split_ifs at hname ⊢
    · obtain ⟨hlive, -⟩ := (named_iff (encodes_written_tombstone hitem by_ now)).mp hname
      cases hlive
    · exact hold
  refine ⟨hformed, ⟨?_, ?_⟩, ?_, ?_, (hsets.map _).nodup_iff.mp h.distinct⟩
  · rw [hstate]
    refine List.forall_mem_append.mpr ⟨h.notClobbered.cleared, fun doc hdoc => ?_⟩
    obtain ⟨hdoc, hid⟩ := List.mem_filter.mp hdoc
    obtain ⟨old, hold, heq, hdone⟩ := h.batches ids (hbatches.mem_iff.mpr List.mem_cons_self) doc.1
      (by simpa using hid)
    rwa [← List.inj_on_of_nodup_map hnodup hold hdoc heq]
  · rw [hstate]
    intro doc hdoc doc' hdoc' name hname hname'
    exact h.notClobbered.names doc (hnamed doc hdoc name hname) doc' (hnamed doc' hdoc' name hname')
      name hname hname'
  · rw [hstate]
    intro ids' hids' id hid
    obtain ⟨doc, hdoc, rfl, hdone⟩ :=
      h.batches ids' (hbatches.mem_iff.mpr (List.mem_cons_of_mem _ hids')) id hid
    have hnot : doc.1 ∉ ids := fun hmem => hapart ids' hids' doc.1 hmem hid
    exact ⟨doc, List.mem_map.mpr ⟨doc, hdoc, if_neg hnot⟩, rfl, hdone⟩
  · rw [hstate]
    intro item hitem doc hdoc hname
    exact h.unnamed item (hsets.mem_iff.mpr hitem) doc (hnamed doc hdoc _ hname) hname

/-- A name is looked for, and not found. -/
theorem Inv.adding (h : s.Inv casing catalog) (hformed : t.WellFormed casing catalog)
    {item : GroceryItem} (hdocs : t.state.docs = s.state.docs)
    (hcleared : t.state.cleared = s.state.cleared) (hsets : t.sets.Perm (item :: s.sets))
    (hbatches : t.batches ⊆ s.batches)
    (hunnamed : ∀ doc ∈ s.state.docs, ∀ other, Encodes doc.2 other → other.isDeleted = false →
      other.name ≠ item.name)
    (hapart : ∀ other ∈ s.sets, other.name ≠ item.name) : t.Inv casing catalog where
  formed := hformed
  notClobbered := ⟨hcleared ▸ h.notClobbered.cleared, hdocs ▸ h.notClobbered.names⟩
  batches := hdocs ▸ fun ids hids => h.batches ids (hbatches hids)
  unnamed := by
    rw [hdocs]
    rintro other hother doc hdoc ⟨found, hfound, hlive, hname⟩
    obtain rfl | hold := List.mem_cons.mp (hsets.mem_iff.mp hother)
    · exact hunnamed doc hdoc found hfound hlive hname
    · exact h.unnamed other hold doc hdoc ⟨found, hfound, hlive, hname⟩
  distinct := by
    refine ((hsets.map (·.name)).nodup_iff).mpr (List.nodup_cons.mpr ⟨?_, h.distinct⟩)
    rintro hmem
    obtain ⟨other, hother, hname⟩ := List.mem_map.mp hmem
    exact hapart other hother hname

theorem apartAt_of_performs {c : GroceryRequest} {point : GroceryAwait} {reply : FirestoreReply}
    (h : s.Performs e c point reply) (hapart : s.Apart casing e) (hfails : reply.fails = false) :
    s.ApartAt casing c.call point := by
  obtain ⟨i, k, rfl, hi⟩ := h
  exact hapart _ hi hfails point rfl

theorem inv_step (h : s.Inv casing catalog) (hapart : s.Apart casing e)
    (hstep : step casing catalog s e = some t) : t.Inv casing catalog := by
  have hformed := wellFormed_step h.formed hstep
  cases effect_of_step h.formed hstep with
  | rest left hdocs hcleared hsets hbatches _ =>
    exact h.rest hformed hdocs hcleared hsets fun ids hids => h.batches ids (hbatches hids)
  | changed c reply id doc item data hperforms hfails hcall hdoc hid hitem hdata hdocs hcleared hsets
      hbatches =>
    obtain ⟨hleaves, hfree⟩ := apartAt_of_performs hperforms hapart hfails id hcall
    exact h.changed hformed hdoc hid hitem hdata hdocs hcleared hsets hbatches hleaves hfree
  | adding c reply item name by_ hperforms hcall _ hname _ _ hunnamed hdocs hcleared hsets hbatches
      hfails =>
    have hfresh := apartAt_of_performs hperforms hapart hfails
    refine h.adding hformed hdocs hcleared hsets hbatches hunnamed ?_
    rw [hname]
    exact hfresh name (by rw [hcall]; rfl)
  | added c reply item _ hitem hdocs hcleared hsets hbatches =>
    exact h.added hformed hitem hdocs hcleared hsets hbatches
  | clearing c reply ids _ hdone hdocs hcleared hsets hbatches =>
    refine h.rest hformed hdocs hcleared (hsets.trans (.refl ([] ++ t.sets))) fun ids' hids' id hid => ?_
    obtain rfl | hids' := List.mem_cons.mp (hbatches hids')
    · obtain ⟨doc, hdoc, heq, hdone⟩ := hdone id hid
      obtain ⟨item, hitem⟩ := h.formed.encodes doc hdoc
      exact ⟨doc, hdoc, heq, item, hitem, hdone item hitem⟩
    · exact h.batches ids' hids' id hid
  | committed c reply ids by_ now hperforms hstate hsets hbatches hfails =>
    have hothers := apartAt_of_performs hperforms hapart hfails
    have hrest : (s.batches.erase ids).Perm t.batches := by
      simpa using hbatches.erase ids
    refine h.committed hformed hstate hsets hbatches fun ids' hids' id hid => ?_
    exact hothers ids' (hrest.mem_iff.mpr hids') id hid

/-- In a run where nothing comes between a query and its write that the write would clobber, every
item that a batch tombstones is done and live at that moment, and no two live items have one name. -/
theorem notClobbered_of_apart (casing : Casing) (catalog : ItemCatalog κ) (catalogs : Nat → κ)
    (events : List ShopperEvent)
    (h : EachStep (step casing catalog) (Apart casing) (start catalogs) events) :
    Always (step casing catalog) NotClobbered (start catalogs) events :=
  Always.of_invariant (fun _ _ _ hinv hapart hstep => inv_step hinv hapart hstep)
    (fun _ hinv => hinv.notClobbered) (inv_start catalogs) h

/-! ### Milk that is moved back, and milk that is added twice -/

/-- Milk is added and bought. -/
def buysMilk : List ShopperEvent :=
  [callOf 0 (.addItem "milk" GrocerySeed.you), performed 0 "milk", performed 0 "",
    callOf 0 (.setStatus "milk" .done GrocerySeed.you), performed 0 ""]

/-- Dana clears what is done, and Sam adds milk while her batch is on its way, and again. -/
def clearsThenAdds : List ShopperEvent :=
  [callOf 1 (.clearDone GrocerySeed.dana), performed 0 "",
    callOf 2 (.addItem " Milk" GrocerySeed.sam), performed 1 "", performed 0 "",
    callOf 2 (.addItem " Milk" GrocerySeed.sam), performed 0 "more", performed 0 ""]

/-- Sam moves milk back to needed while Dana's batch is on its way. -/
def clearsAfterMove : List ShopperEvent :=
  [callOf 1 (.clearDone GrocerySeed.dana), performed 0 "",
    callOf 2 (.setStatus "milk" .needed GrocerySeed.sam), performed 1 "", performed 0 ""]

/-- Dana and Sam look for milk before either has added it. -/
def addsTwice : List ShopperEvent :=
  [callOf 1 (.addItem "milk" GrocerySeed.dana), callOf 2 (.addItem "milk" GrocerySeed.sam),
    performed 0 "milk", performed 0 "more", performed 0 "", performed 0 ""]

/-- Milk as a client adds it, at the epoch. -/
def milkOf (id : String) (by_ : Collaborator) : GroceryItem :=
  .added id "Milk" .dairy by_ (.sinceEpoch 0)

theorem NotClobbered.id_eq (h : s.NotClobbered) {item other : GroceryItem}
    (hitem : (item.id, itemToMap item) ∈ s.state.docs)
    (hother : (other.id, itemToMap other) ∈ s.state.docs) (hlive : item.isDeleted = false)
    (hlive' : other.isDeleted = false) (hname : item.name = other.name) : item.id = other.id := by
  have hnamed : Named (itemToMap item) item.name := ⟨item, encodes_itemToMap item, hlive, rfl⟩
  have hnamed' : Named (itemToMap other) item.name :=
    ⟨other, encodes_itemToMap other, hlive', hname.symm⟩
  generalize itemToMap item = data at hitem hnamed
  generalize itemToMap other = data' at hother hnamed'
  exact h.names _ hitem _ hother item.name hnamed hnamed'

theorem notClobbered_of_apart_clearsThenAdds :
    Always (step .ascii (StaticItemCatalog .ascii)) NotClobbered (start fun _ => [])
      (buysMilk ++ clearsThenAdds) :=
  notClobbered_of_apart .ascii (StaticItemCatalog .ascii) (fun _ => []) _ (by decide +kernel)

/-- What has been moved back is tombstoned, and what is looked for twice is added twice. -/
theorem not_notClobbered :
    ¬Always (step .ascii (StaticItemCatalog .ascii)) NotClobbered (start fun _ => [])
        (buysMilk ++ clearsAfterMove) ∧
      ¬Always (step .ascii (StaticItemCatalog .ascii)) NotClobbered (start fun _ => [])
        addsTwice := by
  constructor
  · intro h
    have hrun : (run (step .ascii (StaticItemCatalog .ascii)) (start fun _ => [])
        (buysMilk ++ clearsAfterMove)).map (fun t =>
        t.state.cleared.any fun doc => doc.2.get "status" != some (.string "done")) = some true := by
      decide +kernel
    obtain ⟨t, ht, hany⟩ := Option.map_eq_some_iff.mp hrun
    obtain ⟨doc, hdoc, hstatus⟩ := List.any_eq_true.mp hany
    obtain ⟨item, hitem, hdone⟩ := (h.last ht).cleared doc hdoc
    simp only [GroceryItem.isDone, Bool.and_eq_true, beq_iff_eq] at hdone
    rw [hitem.status, hdone.2] at hstatus
    simp [ItemStatus.name] at hstatus
  · intro h
    have hrun : (run (step .ascii (StaticItemCatalog .ascii)) (start fun _ => [])
        addsTwice).map (fun t => t.state.docs) = some
          ([milkOf "milk" GrocerySeed.dana, milkOf "more" GrocerySeed.sam].map fun item =>
            (item.id, itemToMap item)) := by
      decide +kernel
    obtain ⟨t, ht, hdocs⟩ := Option.map_eq_some_iff.mp hrun
    have hmem : ∀ item ∈ [milkOf "milk" GrocerySeed.dana, milkOf "more" GrocerySeed.sam],
        (item.id, itemToMap item) ∈ t.state.docs := fun item hitem =>
      hdocs ▸ List.mem_map.mpr ⟨item, hitem, rfl⟩
    have heq := (h.last ht).id_eq (hmem _ List.mem_cons_self)
      (hmem _ (List.mem_cons_of_mem _ List.mem_cons_self)) rfl rfl rfl
    exact absurd heq (by decide)

end Shoppers

end Duet.Grocery
