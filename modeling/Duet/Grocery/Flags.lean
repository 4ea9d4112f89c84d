import Duet.Grocery.Household

/-!
# Flags and reactions

The flag of an item, who has raised it and who has reacted to it are written by several calls, partly
as updates and partly in transactions, and so are its tombstone and who has set it. A reaction is
recorded without a look at the flag.

## Main definitions

* `GroceryItem.Coupled` — the fields of an item go together.

## Main results

* `GroceryItem.Coupled.change_iff` — a call keeps them together unless it reacts to an item without a flag.
* `coupled_iff` — so do runs, in memory and in the cloud, whatever overlaps.
-/

namespace Duet.Grocery

open Lib FirestoreGroceryRepository

variable {κ : Type} {casing : Casing} {catalog : ItemCatalog κ}

/-- Without a flag nobody has raised it or reacted to it, a flag has been raised by somebody, nobody
has reacted twice, and a tombstone has been set by somebody. -/
structure GroceryItem.Coupled (item : GroceryItem) : Prop where
  unflagged : item.flag = none → item.flagBy = none ∧ item.reactions = []
  flagged : item.flag.isSome → item.flagBy.isSome
  reactions : (item.reactions.map (·.id)).Nodup
  deleted : item.deletedBy.isSome = item.isDeleted

def GroceryCall.reacts : GroceryCall → Bool
  | reactOnIt _ _ => true
  | _ => false

/-! ## Items -/

section

variable {item : GroceryItem} {now : DateTime}

theorem GroceryItem.Coupled.withReaction_iff (h : item.Coupled) {by_ : Collaborator}
    (hreacted : item.reacted by_ = false) :
    (item.withReaction by_ now).Coupled ↔ item.flag.isSome := by
  constructor
  · intro hcoupled
    by_contra hflag
    have hnone : item.flag = none := by simpa using hflag
    have hempty : item.reactions ++ [by_] = [] := (hcoupled.unflagged hnone).2
    simp at hempty
  · intro hflag
    have hfresh : by_.id ∉ item.reactions.map (·.id) := by
      simpa [GroceryItem.reacted] using hreacted
    refine ⟨fun hnone => ?_, h.flagged, ?_, h.deleted⟩
    · rw [show item.flag = none from hnone] at hflag
      cases hflag
    · change ((item.reactions ++ [by_]).map (·.id)).Nodup
      rw [List.map_append, List.map_singleton, ← List.concat_eq_append]
      exact h.reactions.concat hfresh

/-- A call keeps the fields of an item together, unless it reacts to an item without a flag. -/
theorem GroceryItem.Coupled.change_iff (h : item.Coupled) (now : DateTime) (call : GroceryCall) :
    (call.change now item).Coupled ↔ (call.reacts = true → item.flag.isSome) := by
  cases call with
  | reactOnIt id by_ =>
    simp only [GroceryCall.change, GroceryCall.reacts, true_imp_iff]
    cases hreacted : item.reacted by_ with
    | false => exact h.withReaction_iff hreacted
    | true =>
      refine iff_of_true h (Option.isSome_iff_ne_none.mpr fun hnone => ?_)
      simp [GroceryItem.reacted, (h.unflagged hnone).2] at hreacted
  | setFlag id flag by_ =>
    refine iff_of_true ?_ fun hreacts => by cases hreacts
    cases flag with
    | none => exact ⟨fun _ => ⟨rfl, rfl⟩, (fun hflag => by cases hflag), .nil, h.deleted⟩
    | some flag => exact ⟨(fun hflag => by cases hflag), fun _ => rfl, h.reactions, h.deleted⟩
  | deleteItem id by_ =>
    exact iff_of_true ⟨h.unflagged, h.flagged, h.reactions, rfl⟩ fun hreacts => by cases hreacts
  | restoreItem id =>
    exact iff_of_true ⟨h.unflagged, h.flagged, h.reactions, rfl⟩ fun hreacts => by cases hreacts
  | _ =>
    exact iff_of_true ⟨h.unflagged, h.flagged, h.reactions, h.deleted⟩ fun hreacts => by cases hreacts

theorem GroceryItem.Coupled.tombstoned (h : item.Coupled) (by_ : Collaborator) (now : DateTime) :
    (item.tombstoned by_ now).Coupled :=
  ⟨h.unflagged, h.flagged, h.reactions, rfl⟩

theorem GroceryItem.New.coupled (h : item.New) : item.Coupled := by
  rw [h]
  exact ⟨fun _ => ⟨rfl, rfl⟩, nofun, .nil, rfl⟩

end

/-! ## In memory -/

namespace InMemoryGroceryRepository

variable {r : InMemoryGroceryRepository κ} {call : GroceryCall} {now : DateTime}

/-- The fields of every item go together. -/
def Coupled (r : InMemoryGroceryRepository κ) : Prop := ∀ item ∈ r.items, item.Coupled

/-- One call, at a time. -/
def step (casing : Casing) (catalog : ItemCatalog κ) (r : InMemoryGroceryRepository κ)
    (e : DateTime × GroceryCall) : Option (InMemoryGroceryRepository κ) :=
  some (r.perform casing catalog e.1 e.2).2

/-- A reaction is to an item with a flag. -/
def ReactsToFlag (r : InMemoryGroceryRepository κ) (e : DateTime × GroceryCall) : Prop :=
  e.2.reacts = true → ∀ id ∈ e.2.itemId?, ∀ item ∈ r.items.find? (·.id == id), item.flag.isSome

instance (r : InMemoryGroceryRepository κ) (e : DateTime × GroceryCall) :
    Decidable (r.ReactsToFlag e) := by
  unfold ReactsToFlag
  infer_instance

/-- A call replaces the item that it finds. -/
theorem perform_found (casing : Casing) (catalog : ItemCatalog κ) (now : DateTime) {id : String}
    {item : GroceryItem} (hcall : call.itemId? = some id)
    (hfind : r.items.find? (·.id == id) = some item) :
    (r.perform casing catalog now call).2 = r.replace (call.change now item) ∨
      (r.perform casing catalog now call).2 = r ∧ call.change now item = item := by
  cases call with
  | addItem | clearDone => cases hcall
  | reactOnIt _ by_ =>
    cases hcall
    have hreact : r.reactCore now id by_ = if item.reacted by_ then .ok r
        else .ok (r.replace (item.withReaction by_ now)) := by
      rw [reactCore, requireItem, hfind]
      rfl
    simp only [perform, hreact, GroceryCall.change]
    cases item.reacted by_ with
    | false => exact .inl rfl
    | true => exact .inr ⟨rfl, rfl⟩
  | _ =>
    cases hcall
    left
    simp only [perform, cycleCore, setStatusCore, setFlagCore, deleteCore, restoreCore, requireItem,
      hfind]
    rfl

theorem coupled_replace_iff (h : r.Coupled) {item updated : GroceryItem} (hitem : item ∈ r.items)
    (hid : updated.id = item.id) : (r.replace updated).Coupled ↔ updated.Coupled := by
  constructor
  · intro hcoupled
    refine hcoupled updated (List.mem_map.mpr ⟨item, hitem, ?_⟩)
    rw [if_pos hid.symm]
  · intro hupdated other hother
    obtain ⟨old, hold, rfl⟩ := List.mem_map.mp hother
    split_ifs
    · exact hupdated
    · exact h old hold

theorem Coupled.perform_addItem (h : r.Coupled) (casing : Casing) (catalog : ItemCatalog κ)
    (now : DateTime) (name : String) (by_ : Collaborator) :
    (r.perform casing catalog now (.addItem name by_)).2.Coupled := by
  by_cases hname : (trim name).isEmpty = true
  · rw [perform_unnamed casing catalog now by_ hname]
    exact h
  · simp only [perform, addCore, hname, Bool.false_eq_true, if_false]
    cases r.activeByName casing (trim name) with
    | some existing => exact h
    | none =>
      refine List.forall_mem_append.mpr ⟨h, List.forall_mem_singleton.mpr ?_⟩
      exact (new_added ..).coupled

theorem Coupled.clearDoneCore (h : r.Coupled) (now : DateTime) (by_ : Collaborator) :
    (r.clearDoneCore now by_).Coupled := by
  unfold InMemoryGroceryRepository.clearDoneCore
  dsimp only
  split_ifs
  · exact h
  · intro item hitem
    obtain ⟨old, hold, rfl⟩ := List.mem_map.mp hitem
    split_ifs
    · exact (h old hold).tombstoned by_ now
    · exact h old hold

/-- A call keeps the fields of the items together, unless it reacts to an item without a flag. -/
theorem coupled_perform_iff (h : r.Coupled) (casing : Casing) (catalog : ItemCatalog κ)
    (now : DateTime) (call : GroceryCall) :
    (r.perform casing catalog now call).2.Coupled ↔ r.ReactsToFlag (now, call) := by
  cases hcall : call.itemId? with
  | none =>
    refine iff_of_true ?_ fun _ id hid => by cases hcall.symm.trans hid
    cases call with
    | addItem name by_ => exact h.perform_addItem casing catalog now name by_
    | clearDone by_ => exact h.clearDoneCore now by_
    | _ => cases hcall
  | some id =>
    cases hfind : r.items.find? (·.id == id) with
    | none =>
      have hmissing : id ∉ r.items.map (·.id) := by
        simpa using hfind
      obtain ⟨error, hperform⟩ := perform_missing casing catalog now hcall hmissing
      rw [hperform]
      exact iff_of_true h fun _ => by simp [hcall, hfind]
    | some item =>
      have hitem := List.mem_of_find?_eq_some hfind
      have hreacts : r.ReactsToFlag (now, call) ↔ (call.reacts = true → item.flag.isSome) := by
        simp [ReactsToFlag, hcall, hfind]
      rw [hreacts, ← (h item hitem).change_iff now]
      obtain hreplaced | ⟨hsame, hchange⟩ := perform_found casing catalog now hcall hfind
      · rw [hreplaced, coupled_replace_iff h hitem (id_change now call item)]
      · rw [hsame, hchange]
        exact iff_of_true h (h item hitem)

/-- The fields go together in a whole run exactly when every reaction is to an item with a flag. -/
theorem always_coupled_iff (h : r.Coupled) (calls : List (DateTime × GroceryCall)) :
    Always (step casing catalog) Coupled r calls ↔
      EachStep (step casing catalog) ReactsToFlag r calls := by
  refine always_iff_eachStep (I := fun _ => True) (fun _ _ _ _ _ _ => trivial)
    (fun s e t _ hs hstep => ?_) (fun s e hnone => by cases hnone) trivial h
  obtain rfl := Option.some.inj hstep
  exact coupled_perform_iff hs casing catalog e.1 e.2

/-- The items of the starter list go together. -/
theorem coupled_initialList {items : List GroceryItem}
    (h : GrocerySeed.initialList now = some items) : ∀ item ∈ items, item.Coupled := by
  intro item hitem
  obtain ⟨entry, hentry, rfl⟩ := exists_of_mem_mapM h hitem
  have hseed : ∀ {id name category addedBy addedAgo status statusAgo},
      GrocerySeed.item now id name category addedBy addedAgo status statusAgo = some item →
        item.Coupled := by
    intro id name category addedBy addedAgo status statusAgo hseed
    simp only [GrocerySeed.item, Option.bind_eq_bind, Option.bind_eq_some_iff] at hseed
    obtain ⟨added, -, touched, -, hseed⟩ := hseed
    obtain rfl := Option.some.inj hseed
    exact ⟨fun _ => ⟨rfl, rfl⟩, nofun, .nil, rfl⟩
  simp only [List.mem_cons, List.not_mem_nil, or_false] at hentry
  obtain h | h | h | h | h | h | h := hentry <;> exact hseed h.symm

end InMemoryGroceryRepository

/-! ## In the cloud -/

namespace Shoppers

/-- The fields of every item go together. -/
def Coupled (s : Shoppers κ) : Prop :=
  ∀ doc ∈ s.state.docs, ∃ item, Encodes doc.2 item ∧ item.Coupled

/-- The document is of an item with a flag. -/
def flagged (data : Fields) : Bool := data.get "flag" != some .null

/-- A reaction is to an item with a flag, when its transaction runs. -/
def ReactsToFlag (s : Shoppers κ) : ShopperEvent → Prop
  | .resume i reply => ∀ task ∈ s.running[i]?, task.rest.point? = some .write →
      task.call.call.reacts = true → reply.fails = false →
        ∀ id ∈ task.call.call.itemId?, ∀ doc ∈ s.state.docs, doc.1 = id → flagged doc.2 = true
  | _ => True

instance (s : Shoppers κ) (e : ShopperEvent) : Decidable (s.ReactsToFlag e) :=
  match e with
  | .resume i reply => inferInstanceAs (Decidable (∀ task ∈ s.running[i]?,
      task.rest.point? = some .write → task.call.call.reacts = true → reply.fails = false →
        ∀ id ∈ task.call.call.itemId?, ∀ doc ∈ s.state.docs, doc.1 = id → flagged doc.2 = true))
  | .call _ | .kill => isTrue trivial

variable {s t : Shoppers κ} {e : ShopperEvent}

theorem flagged_iff {data : Fields} {item : GroceryItem} (h : Encodes data item) :
    flagged data = true ↔ item.flag.isSome := by
  rw [flagged, h.flag]
  cases item.flag <;> simp [Value.ofOption]

theorem coupled_of_encodes {data : Fields} {item item' : GroceryItem} (h : Encodes data item)
    (h' : Encodes data item') (hcoupled : item.Coupled) : item'.Coupled := by
  rw [eq_of_encodes h h']
  exact ⟨hcoupled.unflagged, hcoupled.flagged, hcoupled.reactions, hcoupled.deleted⟩

theorem reactsToFlag_iff {c : GroceryRequest} {point : GroceryAwait} {reply : FirestoreReply}
    (h : s.Performs e c point reply) : s.ReactsToFlag e ↔ (point = .write → c.call.reacts = true →
      reply.fails = false → ∀ id ∈ c.call.itemId?, ∀ doc ∈ s.state.docs, doc.1 = id →
        flagged doc.2 = true) := by
  obtain ⟨i, k, rfl, hi⟩ := h
  simp [ReactsToFlag, hi]

/-- A step keeps the fields of the items together, unless it reacts to an item without a flag. -/
theorem coupled_step_iff (hformed : s.WellFormed casing catalog) (h : s.Coupled)
    (hstep : step casing catalog s e = some t) : t.Coupled ↔ s.ReactsToFlag e := by
  cases effect_of_step hformed hstep with
  | rest left hdocs _ _ _ hmissing =>
    refine iff_of_true (by rwa [Coupled, hdocs]) ?_
    cases e with
    | resume i reply =>
      rintro task htask hpoint - hfails id hid doc hdoc rfl
      exact absurd (List.mem_map_of_mem hdoc)
        (hmissing _ _ _ (performs_of_point? htask hpoint) hfails hid)
    | _ => trivial
  | changed c reply id doc item data hperforms hfails hcall hdoc hid hitem hdata hdocs =>
    obtain ⟨item', hitem', hcoupled'⟩ := h doc hdoc
    have hcoupled := coupled_of_encodes hitem' hitem hcoupled'
    have hreacts : s.ReactsToFlag e ↔ (c.call.reacts = true → item.flag.isSome) := by
      simp only [reactsToFlag_iff hperforms, hfails, hcall, true_imp_iff, Option.mem_def,
        Option.some.injEq, forall_eq', ← flagged_iff hitem]
      refine forall_congr' fun _ => ⟨fun hall => hall doc hdoc hid, fun hflag other hother heq => ?_⟩
      rwa [List.inj_on_of_nodup_map hformed.ids.of_append_left hother hdoc (heq.trans hid.symm)]
    rw [hreacts, ← hcoupled.change_iff (c.stamp reply), Coupled, hdocs]
    constructor
    · intro hall
      obtain ⟨changed, hchanged, hcoupled⟩ :=
        hall (id, data) (List.mem_map.mpr ⟨doc, hdoc, if_pos hid⟩)
      exact coupled_of_encodes hchanged hdata hcoupled
    · intro hchanged other hother
      obtain ⟨old, hold, rfl⟩ := List.mem_map.mp hother
      split_ifs
      · exact ⟨_, hdata, hchanged⟩
      · exact h old hold
  | adding c reply item name by_ hperforms _ _ _ _ _ _ hdocs =>
    refine iff_of_true (by rwa [Coupled, hdocs]) ((reactsToFlag_iff hperforms).mpr nofun)
  | added c reply item hperforms hitem hdocs =>
    refine iff_of_true ?_ ((reactsToFlag_iff hperforms).mpr nofun)
    rw [Coupled, hdocs]
    refine List.forall_mem_append.mpr ⟨h, List.forall_mem_singleton.mpr ?_⟩
    dsimp only
    exact ⟨item, encodes_itemToMap item, (hformed.sets item hitem).coupled⟩
  | clearing c reply ids hperforms _ hdocs =>
    refine iff_of_true (by rwa [Coupled, hdocs]) ((reactsToFlag_iff hperforms).mpr nofun)
  | committed c reply ids by_ now hperforms hstate =>
    refine iff_of_true ?_ ((reactsToFlag_iff hperforms).mpr nofun)
    rw [Coupled, hstate]
    intro other hother
    obtain ⟨old, hold, rfl⟩ := List.mem_map.mp hother
    obtain ⟨item, hitem, hcoupled⟩ := h old hold
    split_ifs
    · exact ⟨_, encodes_written_tombstone hitem by_ now, hcoupled.tombstoned by_ now⟩
    · exact ⟨item, hitem, hcoupled⟩

/-- The fields go together in a whole run exactly when every reaction is to an item with a flag. -/
theorem always_coupled_iff (hformed : s.WellFormed casing catalog) (h : s.Coupled)
    (events : List ShopperEvent) : Always (step casing catalog) Coupled s events ↔
      EachStep (step casing catalog) ReactsToFlag s events := by
  refine always_iff_eachStep (fun s e t hformed _ => wellFormed_step hformed)
    (fun s e t hformed hs hstep => coupled_step_iff hformed hs hstep) (fun s e hnone => ?_) hformed h
  cases e with
  | resume i reply =>
    rintro ⟨c, rest⟩ htask hpoint
    -- a write is always performed
    cases rest with
    | await point k =>
      obtain rfl := Option.some.inj hpoint
      have hrunning : s.running[i]? = some ⟨c, .await .write k⟩ := htask
      simp [step, enabled, Lib.Isolate.step, Lib.Isolate.resumed?, hrunning] at hnone
    | _ => cases hpoint
  | _ => trivial

end Shoppers

/-! ## Both -/

/-- From the starter list in memory, and from an empty list in the cloud, the fields of every item go
together in a whole run exactly when every reaction is to an item that has a flag at that moment. -/
theorem coupled_iff (casing : Casing) (catalog : ItemCatalog κ) :
    (∀ now items state, GrocerySeed.initialList now = some items → ∀ calls,
      (Always (InMemoryGroceryRepository.step casing catalog) InMemoryGroceryRepository.Coupled
          ⟨items, 0, state⟩ calls ↔
        EachStep (InMemoryGroceryRepository.step casing catalog)
          InMemoryGroceryRepository.ReactsToFlag ⟨items, 0, state⟩ calls)) ∧
    ∀ catalogs events,
      (Always (Shoppers.step casing catalog) Shoppers.Coupled (Shoppers.start catalogs) events ↔
        EachStep (Shoppers.step casing catalog) Shoppers.ReactsToFlag (Shoppers.start catalogs)
          events) := by
  refine ⟨fun now items state h calls => ?_, fun catalogs events => ?_⟩
  · exact InMemoryGroceryRepository.always_coupled_iff
      (InMemoryGroceryRepository.coupled_initialList h) calls
  · refine Shoppers.always_coupled_iff (Shoppers.wellFormed_start catalogs) ?_ events
    simp [Shoppers.Coupled, Shoppers.start, Lib.Isolate.start]

/-! ### A reaction and a flag that is cleared -/

namespace Shoppers

/-- Milk is added and flagged. -/
def flagsMilk : List ShopperEvent :=
  [callOf 0 (.addItem "milk" GrocerySeed.you), performed 0 "milk", performed 0 "",
    callOf 0 (.setFlag "milk" (some .urgent) GrocerySeed.you), performed 0 ""]

/-- Dana clears the flag while Sam reacts to it. -/
def clearsFlag : List ShopperEvent :=
  [callOf 1 (.setFlag "milk" none GrocerySeed.dana),
    callOf 2 (.reactOnIt "milk" GrocerySeed.sam), performed 0 "", performed 0 ""]

/-- Sam reacts before Dana clears the flag. -/
def reactsFirst : List ShopperEvent :=
  [callOf 1 (.setFlag "milk" none GrocerySeed.dana),
    callOf 2 (.reactOnIt "milk" GrocerySeed.sam), performed 1 "", performed 0 ""]

end Shoppers

/-- Calls in memory, at the epoch. -/
def memoryCalls (calls : List GroceryCall) : List (DateTime × GroceryCall) :=
  calls.map fun call => (.sinceEpoch 0, call)

theorem coupled_iff_reactsFirst :
    Always (InMemoryGroceryRepository.step .ascii (StaticItemCatalog .ascii))
        InMemoryGroceryRepository.Coupled ⟨Groceries.starterList, 0, []⟩
        (memoryCalls [.setFlag "seed_milk" (some .urgent) GrocerySeed.you,
          .reactOnIt "seed_milk" GrocerySeed.sam, .setFlag "seed_milk" none GrocerySeed.dana]) ∧
      Always (Shoppers.step .ascii (StaticItemCatalog .ascii)) Shoppers.Coupled
        (Shoppers.start fun _ => []) (Shoppers.flagsMilk ++ Shoppers.reactsFirst) := by
  obtain ⟨hmemory, hcloud⟩ := coupled_iff .ascii (StaticItemCatalog .ascii)
  refine ⟨(hmemory ⟨0, by decide⟩ _ [] ?_ _).mpr ?_, (hcloud _ _).mpr ?_⟩ <;> decide +kernel

/-- A reaction to a flag that has been cleared stays without it. -/
theorem not_coupled :
    ¬Always (InMemoryGroceryRepository.step .ascii (StaticItemCatalog .ascii))
        InMemoryGroceryRepository.Coupled ⟨Groceries.starterList, 0, []⟩
        (memoryCalls [.setFlag "seed_milk" (some .urgent) GrocerySeed.you,
          .setFlag "seed_milk" none GrocerySeed.dana, .reactOnIt "seed_milk" GrocerySeed.sam]) ∧
      ¬Always (Shoppers.step .ascii (StaticItemCatalog .ascii)) Shoppers.Coupled
        (Shoppers.start fun _ => []) (Shoppers.flagsMilk ++ Shoppers.clearsFlag) := by
  constructor
  · intro h
    have hrun : (run (InMemoryGroceryRepository.step .ascii (StaticItemCatalog .ascii))
        ⟨Groceries.starterList, 0, []⟩
        (memoryCalls [.setFlag "seed_milk" (some .urgent) GrocerySeed.you,
          .setFlag "seed_milk" none GrocerySeed.dana,
          .reactOnIt "seed_milk" GrocerySeed.sam])).map (fun r =>
        r.items.any fun item => item.flag.isNone && !item.reactions.isEmpty) = some true := by
      decide +kernel
    obtain ⟨r, hr, hany⟩ := Option.map_eq_some_iff.mp hrun
    obtain ⟨item, hitem, hboth⟩ := List.any_eq_true.mp hany
    have hcoupled := (h.last hr) item hitem
    simp only [Bool.and_eq_true, Option.isNone_iff_eq_none, Bool.not_eq_true',
      List.isEmpty_eq_false_iff] at hboth
    exact hboth.2 (hcoupled.unflagged hboth.1).2
  · intro h
    have hrun : (run (Shoppers.step .ascii (StaticItemCatalog .ascii))
        (Shoppers.start fun _ => []) (Shoppers.flagsMilk ++ Shoppers.clearsFlag)).map (fun t =>
        t.state.docs.any fun doc => !Shoppers.flagged doc.2 &&
          (doc.2.get "reactions" != some (.array []))) = some true := by
      decide +kernel
    obtain ⟨t, ht, hany⟩ := Option.map_eq_some_iff.mp hrun
    obtain ⟨doc, hdoc, hboth⟩ := List.any_eq_true.mp hany
    obtain ⟨item, hitem, hcoupled⟩ := (h.last ht) doc hdoc
    simp only [Bool.and_eq_true, Bool.not_eq_true', bne_iff_ne, ne_eq] at hboth
    have hflag : item.flag = none := by
      have hunflagged := mt (Shoppers.flagged_iff hitem).mpr (by simp [hboth.1])
      simpa using hunflagged
    refine hboth.2 (hitem.reactions.trans ?_)
    rw [(hcoupled.unflagged hflag).2]
    rfl

end Duet.Grocery
