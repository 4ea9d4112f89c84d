import Duet.Grocery.Equivalence
import Duet.Lib.Async
import Mathlib.Logic.Function.Basic

/-!
# A household that shops at once

Several clients have a `FirestoreGroceryRepository` on the same documents, each with a catalog of its
own. Their calls overlap: between a query and the write that follows it, and before every write,
those of the others may be performed. A transaction is performed at once, and so is a batch.

## Main definitions

* `Household` — the documents, and the catalogs of the clients.
* `GroceryRequest.program` — the calls, one operation of Firestore after the other.
* `Shoppers.step` — a call is made, or the operation that it waits for is performed.
* `GrocerySegment` — what a call does from one operation to the next.

## Main results

* `effect_of_step` — what one step does to the documents, and to what is on its way to them.
-/

namespace Duet.Grocery

open Lib Async FirestoreGroceryRepository

variable {κ : Type}

/-- The documents and the catalogs; `cleared` are the documents as they were when a batch tombstoned
them. -/
structure Household (κ : Type) where
  docs : List ItemDoc
  catalogs : Nat → κ
  cleared : List ItemDoc

/-- A call of a client, and its clock. -/
structure GroceryRequest where
  client : Nat
  now : DateTime
  call : GroceryCall
  deriving DecidableEq, Repr

/-- An operation of Firestore that a call waits for: a query, the update or the transaction of one
item, the first write of a document, a batch of tombstones. -/
inductive GroceryAwait where
  | get
  | write
  | set (item : GroceryItem)
  | commit (ids : List String) (by_ : Collaborator) (now : DateTime)
  deriving DecidableEq, Repr

/-- What the operation gets: the clock, the id that `doc()` makes, and whether it fails. -/
structure FirestoreReply where
  now : DateTime
  newId : String
  fails : Bool
  deriving DecidableEq, Repr

inductive HouseholdError where
  | firestore
  | thrown (error : GroceryError)
  deriving DecidableEq, Repr

abbrev GroceryProgram (κ α : Type) :=
  Async GroceryAwait FirestoreReply (Household κ) HouseholdError α

namespace Household

/-- The repository of a client. -/
def repository (s : Household κ) (client : Nat) : FirestoreGroceryRepository κ :=
  ⟨s.docs, s.catalogs client⟩

/-- What a client's repository leaves. -/
def put (s : Household κ) (client : Nat) (r : FirestoreGroceryRepository κ) : Household κ :=
  { s with docs := r.docs, catalogs := Function.update s.catalogs client r.catalog }

def remember (s : Household κ) (client : Nat) (catalog : κ) : Household κ :=
  { s with catalogs := Function.update s.catalogs client catalog }

/-- The document of a new item is written. -/
def set (s : Household κ) (item : GroceryItem) : Household κ :=
  { s with docs := s.docs ++ [(item.id, itemToMap item)] }

/-- A batch of tombstones is written. -/
def commit (s : Household κ) (ids : List String) (by_ : Collaborator) (now : DateTime) :
    Household κ :=
  { s with
    docs := s.docs.map fun doc =>
      if doc.1 ∈ ids then (doc.1, written doc.2 (tombstoneUpdate now by_)) else doc
    cleared := s.cleared ++ s.docs.filter fun doc => doc.1 ∈ ids }

end Household

namespace GroceryRequest

/-- The time that an item is stamped with: an update is made out when it is called for, a transaction
when it runs. -/
def stamp (c : GroceryRequest) (reply : FirestoreReply) : DateTime :=
  match c.call with
  | .cycleStatus _ _ | .reactOnIt _ _ => reply.now
  | _ => c.now

section

variable (casing : Casing) (catalog : ItemCatalog κ)

/-- `addItem`; what the client does with the answer of the query it does at once. -/
def addItem (client : Nat) (name : String) (by_ : Collaborator) :
    GroceryProgram κ (Option GroceryItem) :=
  let trimmed := trim name
  if trimmed.isEmpty then fail (.thrown (.argumentError "Item name cannot be empty"))
  else do
    let titled := casing.capitalize trimmed
    let reply ← suspend .get
    if reply.fails then fail .firestore
    else do
      let s ← get
      match firstLive reply.now (whereEqual s.docs "name" (.string titled)) with
      | .error error => fail (.thrown error)
      | .ok (some existing) => done (some existing)
      | .ok none =>
        let remembered := catalog.remember (s.catalogs client) trimmed
        let item :=
          GroceryItem.added reply.newId titled (catalog.categorize remembered trimmed) by_ reply.now
        modify fun s => s.remember client remembered
        let reply ← suspend (.set item)
        if reply.fails then fail .firestore
        else do
          modify fun s => s.set item
          done (some item)

/-- `clearDone`. -/
def clearDone (by_ : Collaborator) : GroceryProgram κ (Option GroceryItem) := do
  let reply ← suspend .get
  if reply.fails then fail .firestore
  else do
    let s ← get
    match liveDocs (whereEqual s.docs "status" (.string ItemStatus.done.name)) with
    | none => fail (.thrown .typeError)
    | some live =>
      if live.isEmpty then done none
      else do
        let ids := live.map Prod.fst
        let commit ← suspend (.commit ids by_ reply.now)
        if commit.fails then fail .firestore
        else do
          let s ← get
          match ids.find? fun id => id ∉ s.docs.map Prod.fst with
          | some id => fail (.thrown (.notFound id))
          | none =>
            modify fun s => s.commit ids by_ reply.now
            done none

/-- The calls that are one update or one transaction. -/
def write (c : GroceryRequest) : GroceryProgram κ (Option GroceryItem) := do
  let reply ← suspend .write
  if reply.fails then fail .firestore
  else do
    let s ← get
    let left := (s.repository c.client).perform casing catalog (c.stamp reply) reply.newId c.call
    modify fun s => s.put c.client left.2
    match left.1 with
    | .ok item => done item
    | .error error => fail (.thrown error)

def program (c : GroceryRequest) : GroceryProgram κ (Option GroceryItem) :=
  match c.call with
  | .addItem name by_ => addItem casing catalog c.client name by_
  | .clearDone by_ => clearDone by_
  | _ => c.write casing catalog

end

end GroceryRequest

/-! ## Runs -/

/-- The household, and the calls that run. -/
abbrev Shoppers (κ : Type) := Lib.Isolate GroceryRequest GroceryAwait FirestoreReply (Household κ)
  HouseholdError (Option GroceryItem)

abbrev ShopperEvent := Lib.IsolateEvent GroceryRequest FirestoreReply

namespace GroceryAwait

/-- The item that is on its way to its document. -/
def sets : GroceryAwait → List GroceryItem
  | set item => [item]
  | _ => []

/-- The items that a batch is about to tombstone. -/
def batches : GroceryAwait → List (List String)
  | commit ids _ _ => [ids]
  | _ => []

end GroceryAwait

namespace Shoppers

/-- Nothing has been bought yet. -/
def start (catalogs : Nat → κ) : Shoppers κ := Lib.Isolate.start ⟨[], catalogs, []⟩

/-- The items on their way to their documents. -/
def sets (s : Shoppers κ) : List GroceryItem := s.collect fun _ => GroceryAwait.sets

/-- The batches on their way. -/
def batches (s : Shoppers κ) : List (List String) := s.collect fun _ => GroceryAwait.batches

/-- The id that `doc()` makes after a query is new. -/
def enabled (s : Shoppers κ) : ShopperEvent → Bool
  | .call _ => true
  | .resume i reply => ((s.running[i]?).bind fun task => task.rest.point?) = some .get →
      reply.newId ∉ s.state.docs.map Prod.fst ∧ reply.newId ∉ s.sets.map (·.id)
  | .kill => false

/-- One event of the household. -/
def step (casing : Casing) (catalog : ItemCatalog κ) (s : Shoppers κ) (e : ShopperEvent) :
    Option (Shoppers κ) :=
  if s.enabled e then Lib.Isolate.step (GroceryRequest.program casing catalog) id s e else none

/-- A call of a client, at the epoch. -/
def callOf (client : Nat) (call : GroceryCall) : ShopperEvent := .call ⟨client, .sinceEpoch 0, call⟩

/-- An operation of Firestore that does not fail. -/
def performed (i : Nat) (newId : String) : ShopperEvent := .resume i ⟨.sinceEpoch 0, newId, false⟩

end Shoppers

/-! ## The segments of the calls -/

/-- What a call does from where it begins, or an operation is performed, to the next one. -/
inductive GrocerySegment (casing : Casing) (catalog : ItemCatalog κ) (c : GroceryRequest) :
    Option (GroceryAwait × FirestoreReply) → Household κ →
      Stop GroceryAwait HouseholdError (Option GroceryItem) → Household κ → Prop where
  | queries (s) : GrocerySegment casing catalog c none s (.waits .get) s
  | writes (s) : c.call.itemId?.isSome → GrocerySegment casing catalog c none s (.waits .write) s
  | ends (s from? outcome) : (∀ reply, from? = some (.write, reply) → reply.fails = true) →
    GrocerySegment casing catalog c from? s (.ends outcome) s
  | written (s reply outcome) : reply.fails = false → c.call.itemId?.isSome →
    GrocerySegment casing catalog c (some (.write, reply)) s (.ends outcome) (s.put c.client
      ((s.repository c.client).perform casing catalog (c.stamp reply) reply.newId c.call).2)
  | adding (s reply name by_ titled category remembered) : c.call = .addItem name by_ →
    titled = casing.capitalize (trim name) →
    firstLive reply.now (whereEqual s.docs "name" (.string titled)) = .ok none →
    reply.fails = false → GrocerySegment casing catalog c (some (.get, reply)) s
      (.waits (.set (.added reply.newId titled category by_ reply.now)))
      (s.remember c.client remembered)
  | added (s item reply) : reply.fails = false →
    GrocerySegment casing catalog c (some (.set item, reply)) s (.ends (.ok (some item)))
      (s.set item)
  | clearing (s reply by_ live) :
    liveDocs (whereEqual s.docs "status" (.string ItemStatus.done.name)) = some live →
    reply.fails = false → GrocerySegment casing catalog c (some (.get, reply)) s
      (.waits (.commit (live.map Prod.fst) by_ reply.now)) s
  | committed (s reply ids by_ now) : reply.fails = false →
    GrocerySegment casing catalog c (some (.commit ids by_ now, reply)) s (.ends (.ok none))
      (s.commit ids by_ now)

section

variable {casing : Casing} {catalog : ItemCatalog κ}

-- `trim` is not computed when a goal is looked at
attribute [local irreducible] trim

/-! ### A call that runs alone -/

theorem subset_of_liveDocs {docs live : List ItemDoc} (h : liveDocs docs = some live) :
    ∀ doc ∈ live, doc ∈ docs := by
  induction docs generalizing live with
  | nil =>
    obtain rfl := Option.some.inj h
    nofun
  | cons first rest ih =>
    simp only [liveDocs, Option.bind_eq_bind, Option.bind_eq_some_iff] at h
    obtain ⟨isDeleted, -, rest', hrest, hlive⟩ := h
    obtain rfl := Option.some.inj hlive
    intro doc hdoc
    split_ifs at hdoc
    · exact List.mem_cons_of_mem first (ih hrest doc hdoc)
    · obtain rfl | hdoc := List.mem_cons.mp hdoc
      · exact List.mem_cons_self
      · exact List.mem_cons_of_mem first (ih hrest doc hdoc)

/-- What a client leaves is what its repository holds. -/
@[simp] theorem repository_put (s : Household κ) (client : Nat) (r : FirestoreGroceryRepository κ) :
    (s.put client r).repository client = r := by
  simp [Household.put, Household.repository]

theorem alone_write (c : GroceryRequest) (newId : String) (s : Household κ) :
    (c.write casing catalog).alone ⟨c.now, newId, false⟩ s =
      (((s.repository c.client).perform casing catalog c.now newId c.call).1.mapError .thrown,
        s.put c.client ((s.repository c.client).perform casing catalog c.now newId c.call).2) := by
  have hstamp : c.stamp ⟨c.now, newId, false⟩ = c.now := by
    unfold GroceryRequest.stamp
    split <;> rfl
  rw [GroceryRequest.write, suspend_bind, alone_await]
  simp only [Bool.false_eq_true, if_false, alone_get_bind, alone_modify_bind, hstamp]
  rcases (s.repository c.client).perform casing catalog c.now newId c.call with ⟨error | item, r⟩ <;>
    rfl

theorem alone_addItem (client : Nat) (now : DateTime) (newId name : String) (by_ : Collaborator)
    (s : Household κ) :
    ∃ t, (GroceryRequest.addItem casing catalog client name by_).alone ⟨now, newId, false⟩ s =
        (((s.repository client).perform casing catalog now newId (.addItem name by_)).1.mapError
          .thrown, t) ∧
      t.repository client =
        ((s.repository client).perform casing catalog now newId (.addItem name by_)).2 := by
  unfold GroceryRequest.addItem
  by_cases hname : (trim name).isEmpty = true
  · rw [perform_unnamed casing catalog now newId by_ hname]
    exact ⟨s, by simp [hname, Except.mapError], rfl⟩
  · simp only [hname, Bool.false_eq_true, if_false, suspend_bind, alone_await, alone_get_bind,
      perform, FirestoreGroceryRepository.addItem, Household.repository]
    rcases firstLive now (whereEqual s.docs "name" (.string (casing.capitalize (trim name)))) with
      error | _ | existing
    · exact ⟨s, rfl, rfl⟩
    · refine ⟨_, rfl, ?_⟩
      simp [Household.set, Household.remember, bind, Except.bind, pure, Except.pure, Except.map]
      rfl
    · exact ⟨s, rfl, rfl⟩

theorem alone_clearDone (client : Nat) (now : DateTime) (newId : String) (by_ : Collaborator)
    (s : Household κ) :
    ∃ t, (GroceryRequest.clearDone by_).alone ⟨now, newId, false⟩ s =
        (((s.repository client).perform casing catalog now newId (.clearDone by_)).1.mapError
          .thrown, t) ∧
      t.repository client =
        ((s.repository client).perform casing catalog now newId (.clearDone by_)).2 := by
  rw [GroceryRequest.clearDone]
  simp only [Bool.false_eq_true, if_false, suspend_bind, alone_await, alone_get_bind, perform,
    FirestoreGroceryRepository.clearDone, Household.repository]
  cases hlive : liveDocs (whereEqual s.docs "status" (.string ItemStatus.done.name)) with
  | none => exact ⟨s, rfl, rfl⟩
  | some live =>
    have hfind : (live.map Prod.fst).find? (fun id => id ∉ s.docs.map Prod.fst) = none := by
      refine List.find?_eq_none.mpr fun id hid => ?_
      obtain ⟨doc, hdoc, rfl⟩ := List.mem_map.mp hid
      have hmem := (mem_whereEqual.mp (subset_of_liveDocs hlive doc hdoc)).1
      simpa using List.mem_map_of_mem (f := Prod.fst) hmem
    dsimp only
    split_ifs
    · exact ⟨s, rfl, rfl⟩
    · refine ⟨s.commit (live.map Prod.fst) by_ now, ?_, rfl⟩
      simp only [alone_await, Bool.false_eq_true, if_false, alone_get_bind, hfind]
      rfl

/-- A call that no other call comes between does what the repository does in one go. -/
theorem alone_program (c : GroceryRequest) (newId : String) (s : Household κ) :
    ∃ t, (c.program casing catalog).alone ⟨c.now, newId, false⟩ s =
        (((s.repository c.client).perform casing catalog c.now newId c.call).1.mapError .thrown, t) ∧
      t.repository c.client =
        ((s.repository c.client).perform casing catalog c.now newId c.call).2 := by
  unfold GroceryRequest.program
  split
  · next name by_ hcall =>
    rw [hcall]
    exact alone_addItem c.client c.now newId name by_ s
  · next by_ hcall =>
    rw [hcall]
    exact alone_clearDone c.client c.now newId by_ s
  · exact ⟨_, alone_write c newId s, repository_put ..⟩

/-! ### The segments -/

theorem follows_addItem (c : GroceryRequest) {name : String} {by_ : Collaborator}
    (hcall : c.call = .addItem name by_) (s : Household κ) :
    (GroceryRequest.addItem casing catalog c.client name by_).FollowsOn
      (GrocerySegment casing catalog c) none s s := by
  unfold GroceryRequest.addItem
  dsimp only
  split_ifs
  · exact .ends s _ _ nofun
  rw [suspend_bind, followsOn_await]
  refine ⟨.queries s, fun s reply => ?_⟩
  split_ifs with hfails
  · exact .ends s _ _ nofun
  rw [followsOn_get_bind]
  split
  · exact .ends s _ _ nofun
  · exact .ends s _ _ nofun
  · next hnone =>
    rw [followsOn_modify_bind, suspend_bind, followsOn_await]
    refine ⟨.adding s reply name by_ _ _ _ hcall rfl hnone (by simpa using hfails),
      fun s reply => ?_⟩
    split_ifs with hfails
    · exact .ends s _ _ nofun
    · exact .added s _ reply (by simpa using hfails)

theorem follows_clearDone (c : GroceryRequest) (by_ : Collaborator) (s : Household κ) :
    (GroceryRequest.clearDone by_).FollowsOn (GrocerySegment casing catalog c) none s s := by
  rw [GroceryRequest.clearDone, suspend_bind, followsOn_await]
  refine ⟨.queries s, fun s reply => ?_⟩
  split_ifs with hfails
  · exact .ends s _ _ nofun
  rw [followsOn_get_bind]
  split
  · exact .ends s _ _ nofun
  · next live hlive =>
    split_ifs
    · exact .ends s _ _ nofun
    rw [suspend_bind, followsOn_await]
    refine ⟨.clearing s reply by_ live hlive (by simpa using hfails), fun s commit => ?_⟩
    split_ifs with hfails
    · exact .ends s _ _ nofun
    rw [followsOn_get_bind]
    split
    · exact .ends s _ _ nofun
    · exact .committed s commit _ by_ reply.now (by simpa using hfails)

theorem follows_write (c : GroceryRequest) (hcall : c.call.itemId?.isSome) (s : Household κ) :
    (c.write casing catalog).FollowsOn (GrocerySegment casing catalog c) none s s := by
  rw [GroceryRequest.write, suspend_bind, followsOn_await]
  refine ⟨.writes s hcall, fun s reply => ?_⟩
  split_ifs with hfails
  · refine .ends s _ _ fun reply' hreply => ?_
    obtain ⟨-, rfl⟩ := Prod.mk.inj (Option.some.inj hreply)
    exact hfails
  have hreply : reply.fails = false := by simpa using hfails
  rw [followsOn_get_bind, followsOn_modify_bind]
  split <;> exact .written s reply _ hreply hcall

/-- Every call goes through its segments. -/
theorem follows_program (c : GroceryRequest) (s : Household κ) :
    (c.program casing catalog).FollowsOn (GrocerySegment casing catalog c) none s s := by
  unfold GroceryRequest.program
  split
  · next name by_ hcall => exact follows_addItem c hcall s
  · next by_ hcall => exact follows_clearDone c by_ s
  · next hadd hclear =>
    refine follows_write c ?_ s
    cases hcall : c.call <;> simp_all [GroceryCall.itemId?]

end

/-! ## What a step does -/

/-- A new item, as `addItem` makes it. -/
def GroceryItem.New (item : GroceryItem) : Prop :=
  item = .added item.id item.name item.category item.addedBy item.addedAt

theorem new_added (id name : String) (category : ItemCategory) (by_ : Collaborator)
    (now : DateTime) : (GroceryItem.added id name category by_ now).New := rfl

namespace Shoppers

/-- The event performs the operation that a call waits for. -/
def Performs (s : Shoppers κ) (e : ShopperEvent) (c : GroceryRequest) (point : GroceryAwait)
    (reply : FirestoreReply) : Prop :=
  ∃ i k, e = .resume i reply ∧ s.running[i]? = some ⟨c, .await point k⟩

/-- The calls are as specified, no two documents have or will have one id, every document encodes an
item, and an item on its way to its document is new. -/
structure WellFormed (casing : Casing) (catalog : ItemCatalog κ) (s : Shoppers κ) : Prop where
  obeys : s.ObeysOn (GrocerySegment casing catalog)
  ids : (s.state.docs.map Prod.fst ++ s.sets.map (·.id)).Nodup
  encodes : ∀ doc ∈ s.state.docs, ∃ item, Encodes doc.2 item
  sets : ∀ item ∈ s.sets, item.New

/-- What an event does to the documents, and to what is on its way to them. -/
inductive Effect (casing : Casing) (s : Shoppers κ) (e : ShopperEvent) (t : Shoppers κ) : Prop where
  /-- Nothing: a call begins, ends, or writes to a document that is not there. -/
  | rest (left : List GroceryItem) : t.state.docs = s.state.docs →
    t.state.cleared = s.state.cleared → s.sets.Perm (left ++ t.sets) → t.batches ⊆ s.batches →
    (∀ c reply id, s.Performs e c .write reply → reply.fails = false → c.call.itemId? = some id →
      id ∉ s.state.docs.map Prod.fst) → Effect casing s e t
  /-- An item changes. -/
  | changed (c reply id doc item data) : s.Performs e c .write reply → reply.fails = false →
    c.call.itemId? = some id → doc ∈ s.state.docs → doc.1 = id → Encodes doc.2 item →
    Encodes data (c.call.change (c.stamp reply) item) →
    t.state.docs = (s.state.docs.map fun other => if other.1 = id then (id, data) else other) →
    t.state.cleared = s.state.cleared → s.sets.Perm t.sets → t.batches ⊆ s.batches →
    Effect casing s e t
  /-- A name is looked for, and not found. -/
  | adding (c reply item name by_) : s.Performs e c .get reply → c.call = .addItem name by_ →
    item.New → item.name = casing.capitalize (trim name) →
    item.id ∉ s.state.docs.map Prod.fst → item.id ∉ s.sets.map (·.id) →
    (∀ doc ∈ s.state.docs, ∀ other, Encodes doc.2 other → other.isDeleted = false →
      other.name ≠ item.name) →
    t.state.docs = s.state.docs → t.state.cleared = s.state.cleared →
    t.sets.Perm (item :: s.sets) → t.batches ⊆ s.batches → reply.fails = false →
    Effect casing s e t
  /-- A new item is written. -/
  | added (c reply item) : s.Performs e c (.set item) reply → item ∈ s.sets →
    t.state.docs = s.state.docs ++ [(item.id, itemToMap item)] →
    t.state.cleared = s.state.cleared → s.sets.Perm (item :: t.sets) → t.batches ⊆ s.batches →
    reply.fails = false → Effect casing s e t
  /-- What is done is looked for. -/
  | clearing (c reply ids) : s.Performs e c .get reply →
    (∀ id ∈ ids, ∃ doc ∈ s.state.docs, doc.1 = id ∧ ∀ item, Encodes doc.2 item →
      item.isDone = true) →
    t.state.docs = s.state.docs → t.state.cleared = s.state.cleared → s.sets.Perm t.sets →
    t.batches ⊆ ids :: s.batches → reply.fails = false → Effect casing s e t
  /-- A batch is performed. -/
  | committed (c reply ids by_ now) : s.Performs e c (.commit ids by_ now) reply →
    t.state = s.state.commit ids by_ now → s.sets.Perm t.sets → s.batches.Perm (ids :: t.batches) →
    reply.fails = false → Effect casing s e t

variable {casing : Casing} {catalog : ItemCatalog κ} {s t : Shoppers κ} {e : ShopperEvent}

theorem performs_unique {c c' : GroceryRequest} {point point' : GroceryAwait}
    {reply reply' : FirestoreReply} (h : s.Performs e c point reply)
    (h' : s.Performs e c' point' reply') : c = c' ∧ point = point' ∧ reply = reply' := by
  obtain ⟨i, k, rfl, hi⟩ := h
  obtain ⟨j, k', he, hj⟩ := h'
  obtain ⟨rfl, rfl⟩ := Lib.IsolateEvent.resume.inj he
  cases hi.symm.trans hj
  exact ⟨rfl, rfl, rfl⟩

theorem performs_of_point? {i : Nat} {point : GroceryAwait} {reply : FirestoreReply}
    {task : Task GroceryRequest GroceryAwait FirestoreReply (Household κ) HouseholdError
      (Option GroceryItem)} (htask : s.running[i]? = some task)
    (hpoint : task.rest.point? = some point) :
    s.Performs (.resume i reply) task.call point reply := by
  obtain ⟨c, rest⟩ := task
  cases rest with
  | await point' k =>
    obtain rfl := Option.some.inj hpoint
    exact ⟨i, k, rfl, htask⟩
  | _ => cases hpoint

/-- A document encodes one item, up to its id. -/
theorem eq_of_encodes {data : Fields} {item item' : GroceryItem} (h : Encodes data item)
    (h' : Encodes data item') : item' = { item with id := item'.id } := by
  have heq : { item with id := item'.id } = { item' with id := item'.id } := Option.some.inj
    ((h.itemFromMap ⟨0, by decide⟩ item'.id).symm.trans (h'.itemFromMap ⟨0, by decide⟩ item'.id))
  exact heq.symm

/-- What is done and live, as the query of `clearDone` finds it. -/
theorem isDone_of_liveDocs {docs live : List ItemDoc}
    (hencodes : ∀ doc ∈ docs, ∃ item, Encodes doc.2 item)
    (hlive : liveDocs (whereEqual docs "status" (.string ItemStatus.done.name)) = some live) :
    ∀ id ∈ live.map Prod.fst, ∃ doc ∈ docs, doc.1 = id ∧ ∀ item, Encodes doc.2 item →
      item.isDone = true := by
  rw [liveDocs_of_encodes fun doc hdoc => hencodes doc (mem_whereEqual.mp hdoc).1] at hlive
  obtain rfl := Option.some.inj hlive
  intro id hid
  obtain ⟨doc, hdoc, rfl⟩ := List.mem_map.mp hid
  obtain ⟨hdoc, hisDeleted⟩ := List.mem_filter.mp hdoc
  obtain ⟨hdoc, hstatus⟩ := mem_whereEqual.mp hdoc
  refine ⟨doc, hdoc, rfl, fun item hitem => ?_⟩
  have hdone : doneLive doc.2 = true := by simp [doneLive, hstatus, hisDeleted]
  rwa [Groceries.doneLive_eq hitem] at hdone

/-- A name that the query of `addItem` does not find. -/
theorem ne_name_of_firstLive {docs : List ItemDoc} {now : DateTime} {titled : String}
    (hencodes : ∀ doc ∈ docs, ∃ item, Encodes doc.2 item)
    (hnone : firstLive now (whereEqual docs "name" (.string titled)) = .ok none) :
    ∀ doc ∈ docs, ∀ item, Encodes doc.2 item → item.isDeleted = false → item.name ≠ titled := by
  obtain ⟨-, hdeleted⟩ | ⟨doc, hdoc, item, hitem, hlive, hfound⟩ :=
    firstLive_of_encodes (fun doc hdoc => hencodes doc (mem_whereEqual.mp hdoc).1) now
  · intro doc hdoc item hitem hlive hname
    have hmem := mem_whereEqual.mpr ⟨hdoc, hname ▸ hitem.name⟩
    simp [hdeleted doc hmem item hitem] at hlive
  · cases hnone.symm.trans hfound

/-- An update or a transaction changes its item, if there is one. -/
theorem effect_of_written {c : GroceryRequest} {reply : FirestoreReply} {id : String}
    (h : s.WellFormed casing catalog) (hperforms : s.Performs e c .write reply)
    (hfails : reply.fails = false) (hcall : c.call.itemId? = some id)
    (hstate : t.state = s.state.put c.client ((s.state.repository c.client).perform casing catalog
      (c.stamp reply) reply.newId c.call).2)
    (hsets : s.sets.Perm t.sets) (hbatches : t.batches ⊆ s.batches) : Effect casing s e t := by
  have hnodup := h.ids.of_append_left
  by_cases hid : id ∈ s.state.docs.map Prod.fst
  · obtain ⟨doc, hdoc, hid⟩ := List.mem_map.mp hid
    obtain ⟨item, hitem⟩ := h.encodes doc hdoc
    obtain ⟨data, hdata, hperform⟩ := perform_item (r := s.state.repository c.client) casing catalog
      (c.stamp reply) reply.newId hnodup hcall hdoc hid hitem
    rw [hperform] at hstate
    refine .changed c reply id doc item data hperforms hfails hcall hdoc hid hitem hdata ?_ ?_ hsets
      hbatches <;> rw [hstate] <;> rfl
  · obtain ⟨error, hperform⟩ := perform_missing (r := s.state.repository c.client) casing catalog
      (c.stamp reply) reply.newId hcall hid
    rw [hperform] at hstate
    refine .rest [] ?_ ?_ hsets hbatches fun c' reply' id' hperforms' _ hcall' => ?_
    · rw [hstate]
      rfl
    · rw [hstate]
      rfl
    · obtain ⟨rfl, -, rfl⟩ := performs_unique hperforms hperforms'
      obtain rfl := Option.some.inj (hcall.symm.trans hcall')
      exact hid

/-- A call that begins issues its first operation. -/
theorem effect_of_call {c : GroceryRequest} (h : s.WellFormed casing catalog)
    (hstep : Lib.Isolate.step (GroceryRequest.program casing catalog) id s (.call c) = some t) :
    Effect casing s (.call c) t := by
  obtain ⟨-, stop, hseg, hmoves⟩ := Lib.Isolate.obeysOn_call follows_program h.obeys hstep
  have hsets : (t.sets ++ []).Perm (s.sets ++ stop.point?.elim [] GroceryAwait.sets) :=
    hmoves.collect fun _ => GroceryAwait.sets
  have hbatches : ∀ ids ∈ t.batches, ids ∈ s.batches ∨
      ids ∈ stop.point?.elim [] GroceryAwait.batches := fun ids hids =>
    (hmoves.mem_iff (f := fun _ => GroceryAwait.batches)).mp (.inl hids)
  have hnone : ∀ c' point reply, ¬s.Performs (.call c) c' point reply := by
    rintro c' point reply ⟨i, k, hevent, -⟩
    cases hevent
  generalize hs : s.state = u at hseg
  generalize ht : t.state = v at hseg
  cases hseg with
  | _ =>
    refine .rest [] (by rw [ht, hs]) (by rw [ht, hs]) ?_ (fun ids hids => ?_)
      fun c' reply id hperforms => absurd hperforms (hnone _ _ _)
    · simpa [Stop.point?, GroceryAwait.sets] using hsets.symm
    · simpa [Stop.point?, GroceryAwait.batches] using hbatches ids hids

/-- A call that goes on writes what its operation writes. -/
theorem effect_of_resume {i : Nat} {reply : FirestoreReply} (h : s.WellFormed casing catalog)
    (henabled : enabled s (.resume i reply) = true)
    (hstep : Lib.Isolate.step (GroceryRequest.program casing catalog) id s (.resume i reply) =
      some t) : Effect casing s (.resume i reply) t := by
  obtain ⟨-, c, point, k, stop, hrunning, hseg, hmoves⟩ :=
    Lib.Isolate.obeysOn_resume follows_program h.obeys hstep
  have hperforms : s.Performs (.resume i reply) c point reply := ⟨i, k, rfl, hrunning⟩
  have hsets : (t.sets ++ point.sets).Perm (s.sets ++ stop.point?.elim [] GroceryAwait.sets) :=
    hmoves.collect fun _ => GroceryAwait.sets
  have hbatches : ∀ ids ∈ t.batches, ids ∈ s.batches ∨
      ids ∈ stop.point?.elim [] GroceryAwait.batches := fun ids hids =>
    (hmoves.mem_iff (f := fun _ => GroceryAwait.batches)).mp (.inl hids)
  have hbatch : (t.batches ++ point.batches).Perm
      (s.batches ++ stop.point?.elim [] GroceryAwait.batches) :=
    hmoves.collect fun _ => GroceryAwait.batches
  have hset : point.sets ⊆ s.sets := hmoves.before fun _ => GroceryAwait.sets
  have hencodes := h.encodes
  generalize hs : s.state = u at hseg hencodes
  generalize ht : t.state = v at hseg
  cases hseg with
  | ends _ _ outcome hfails =>
    refine .rest point.sets (by rw [ht, hs]) (by rw [ht, hs]) ?_ (fun ids hids => ?_) ?_
    · simpa [Stop.point?] using (List.perm_append_comm.trans hsets).symm
    · simpa [Stop.point?] using hbatches ids hids
    · intro c' reply' id hperforms' hfails'
      obtain ⟨rfl, rfl, rfl⟩ := performs_unique hperforms hperforms'
      rw [hfails _ rfl] at hfails'
      cases hfails'
  | written _ _ outcome hfails hcall =>
    obtain ⟨id, hcall⟩ := Option.isSome_iff_exists.mp hcall
    refine effect_of_written h hperforms hfails hcall (ht.trans (by rw [hs])) ?_ fun ids hids => ?_
    · simpa [Stop.point?, GroceryAwait.sets] using hsets.symm
    · simpa [Stop.point?, GroceryAwait.batches] using hbatches ids hids
  | adding _ _ name by_ titled category remembered hcall htitled hnone hfails =>
    obtain ⟨hdocs, hids⟩ : reply.newId ∉ s.state.docs.map Prod.fst ∧
        reply.newId ∉ s.sets.map (·.id) := by simpa [enabled, hrunning] using henabled
    have hunnamed := ne_name_of_firstLive hencodes hnone
    refine .adding c reply (.added reply.newId titled category by_ reply.now) name by_ hperforms
      hcall (new_added ..) htitled hdocs hids ?_ (by rw [ht, hs]; rfl) (by rw [ht, hs]; rfl) ?_
        (fun ids hids => ?_) hfails
    · rw [hs]
      exact hunnamed
    · simpa [Stop.point?, GroceryAwait.sets] using hsets.trans List.perm_append_comm
    · simpa [Stop.point?, GroceryAwait.batches] using hbatches ids hids
  | added _ item _ hfails =>
    refine .added c reply item hperforms (hset List.mem_cons_self) (by rw [ht, hs]; rfl)
      (by rw [ht, hs]; rfl) ?_ (fun ids hids => ?_) hfails
    · simpa [Stop.point?, GroceryAwait.sets] using (List.perm_append_comm.trans hsets).symm
    · simpa [Stop.point?, GroceryAwait.batches] using hbatches ids hids
  | clearing _ _ by_ live hlive hfails =>
    refine .clearing c reply (live.map Prod.fst) hperforms ?_ (by rw [ht, hs]) (by rw [ht, hs]) ?_
      (fun ids hids => ?_) hfails
    · rw [hs]
      exact isDone_of_liveDocs hencodes hlive
    · simpa [Stop.point?, GroceryAwait.sets] using hsets.symm
    · simpa [Stop.point?, GroceryAwait.batches, or_comm] using hbatches ids hids
  | committed _ _ ids by_ now hfails =>
    refine .committed c reply ids by_ now hperforms (by rw [ht, hs]) ?_ ?_ hfails
    · simpa [Stop.point?, GroceryAwait.sets] using hsets.symm
    · simpa [Stop.point?, GroceryAwait.batches] using
        (List.perm_append_comm.trans hbatch).symm

theorem effect_of_step (h : s.WellFormed casing catalog) (hstep : step casing catalog s e = some t) :
    Effect casing s e t := by
  unfold step at hstep
  split_ifs at hstep with henabled
  cases e with
  | kill => cases henabled
  | call c => exact effect_of_call h hstep
  | resume i reply => exact effect_of_resume h henabled hstep

/-! ### Documents that are well formed -/

theorem obeys_step (h : s.WellFormed casing catalog) (hstep : step casing catalog s e = some t) :
    t.ObeysOn (GrocerySegment casing catalog) := by
  unfold step at hstep
  split_ifs at hstep
  obtain ⟨hobeys, -⟩ := Lib.Isolate.obeysOn_step follows_program h.obeys hstep
  exact hobeys

theorem wellFormed_start (catalogs : Nat → κ) : (start catalogs).WellFormed casing catalog where
  obeys := by simp [start, Lib.Isolate.start, Lib.Isolate.ObeysOn]
  ids := by simp [start, Lib.Isolate.start, sets, Lib.Isolate.collect]
  encodes := by simp [start, Lib.Isolate.start]
  sets := by simp [start, Lib.Isolate.start, sets, Lib.Isolate.collect]

/-- One document is written again, with its id. -/
theorem map_fst_replaced (docs : List ItemDoc) (id : String) (data : Fields) :
    (docs.map fun other => if other.1 = id then (id, data) else other).map Prod.fst =
      docs.map Prod.fst := by
  rw [List.map_map]
  refine List.map_congr_left fun other _ => ?_
  simp only [Function.comp_apply]
  split_ifs with hid
  · exact hid.symm
  · rfl

theorem map_fst_commit (r : Household κ) (ids : List String) (by_ : Collaborator) (now : DateTime) :
    (r.commit ids by_ now).docs.map Prod.fst = r.docs.map Prod.fst := by
  rw [Household.commit, List.map_map]
  refine List.map_congr_left fun other _ => ?_
  simp only [Function.comp_apply]
  split_ifs <;> rfl

/-- The documents stay well formed. -/
theorem wellFormed_step (h : s.WellFormed casing catalog)
    (hstep : step casing catalog s e = some t) : t.WellFormed casing catalog := by
  have hobeys := obeys_step h hstep
  have hids := h.ids
  cases effect_of_step h hstep with
  | rest left hdocs _ hsets _ _ =>
    refine ⟨hobeys, ?_, hdocs ▸ h.encodes, fun item hitem =>
      h.sets item (hsets.mem_iff.mpr (List.mem_append_right _ hitem))⟩
    have hall := ((hsets.map (·.id)).append_left (s.state.docs.map Prod.fst)).nodup_iff.mp hids
    rw [List.map_append] at hall
    rw [hdocs]
    exact hall.sublist ((List.sublist_append_right _ _).append_left _)
  | changed c reply id doc item data _ _ _ _ _ _ hdata hdocs _ hsets _ =>
    refine ⟨hobeys, ?_, ?_, fun item hitem => h.sets item (hsets.mem_iff.mpr hitem)⟩
    · rw [hdocs, map_fst_replaced]
      exact ((hsets.map _).append_left _).nodup_iff.mp hids
    · rw [hdocs]
      intro other hother
      obtain ⟨old, hold, rfl⟩ := List.mem_map.mp hother
      split_ifs
      · exact ⟨_, hdata⟩
      · exact h.encodes old hold
  | adding c reply item name by_ _ _ hnew _ hdocs' hids' _ hdocs _ hsets _ =>
    refine ⟨hobeys, ?_, hdocs ▸ h.encodes, fun other hother => ?_⟩
    · rw [hdocs, (((hsets.map _).append_left _).nodup_iff), List.map_cons, List.nodup_middle,
        List.nodup_cons, List.mem_append]
      exact ⟨not_or.mpr ⟨hdocs', hids'⟩, hids⟩
    · obtain rfl | hold := List.mem_cons.mp (hsets.mem_iff.mp hother)
      · exact hnew
      · exact h.sets other hold
  | added c reply item _ hitem hdocs _ hsets _ =>
    refine ⟨hobeys, ?_, ?_, fun other hother =>
      h.sets other (hsets.mem_iff.mpr (List.mem_cons_of_mem _ hother))⟩
    · rw [hdocs, List.map_append, List.append_assoc]
      exact ((hsets.map _).append_left _).nodup_iff.mp hids
    · rw [hdocs]
      refine List.forall_mem_append.mpr ⟨h.encodes, ?_⟩
      simpa using ⟨item, encodes_itemToMap item⟩
  | clearing c reply ids _ _ hdocs _ hsets _ =>
    refine ⟨hobeys, ?_, hdocs ▸ h.encodes, fun item hitem => h.sets item (hsets.mem_iff.mpr hitem)⟩
    rw [hdocs]
    exact ((hsets.map _).append_left _).nodup_iff.mp hids
  | committed c reply ids by_ now _ hstate hsets _ =>
    refine ⟨hobeys, ?_, ?_, fun item hitem => h.sets item (hsets.mem_iff.mpr hitem)⟩
    · rw [hstate, map_fst_commit]
      exact ((hsets.map _).append_left _).nodup_iff.mp hids
    · rw [hstate]
      intro other hother
      obtain ⟨old, hold, rfl⟩ := List.mem_map.mp hother
      obtain ⟨item, hitem⟩ := h.encodes old hold
      split_ifs
      · exact ⟨_, encodes_written_tombstone hitem by_ now⟩
      · exact ⟨item, hitem⟩

end Shoppers

end Duet.Grocery
