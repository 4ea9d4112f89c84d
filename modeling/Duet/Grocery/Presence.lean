import Duet.Grocery.Item
import Duet.Lib.Spell

/-!
# Who is shopping

`PresenceRepository` in memory. Shoppers stay visible until they leave, or until nothing has been heard
of them for too long when the stale ones are dropped.

## Main definitions

* `InMemoryPresence.perform` — one call of the repository.
* `lastHeard`, `HeardLately` — when a shopper was last heard of, and that this was always lately.
* `Shopping` — what the calls so far say of a shopper.

## Main results

* `watchShoppers_iff` — who is shown after any calls.
-/

namespace Duet.Grocery

open Lib

/-- Who is shopping, since when. -/
structure Shopper where
  collaborator : Collaborator
  since : DateTime
  deriving DecidableEq, Repr

/-- The calls, each with the clock where it is read. -/
inductive PresenceCall where
  | enter (who : Collaborator) (now : DateTime)
  | heartbeat (collaboratorId : String) (now : DateTime)
  | leave (collaboratorId : String)
  | pruneStalePresence (now : DateTime)
  deriving DecidableEq, Repr

/-- `_shoppers` and `_lastSeen`. -/
structure InMemoryPresence where
  shoppers : Assoc String Shopper
  lastSeen : Assoc String DateTime
  deriving DecidableEq, Repr

/-- In microseconds. -/
def presenceTtl : Int := 30000000

/-- Nothing has been heard since `seen` for longer than a shopper stays visible. -/
def isStale (now seen : DateTime) : Bool := presenceTtl < now.micros - seen.micros

namespace InMemoryPresence

def empty : InMemoryPresence := ⟨[], []⟩

def watchShoppers (s : InMemoryPresence) : List Shopper := s.shoppers.map (·.2)

def enter (s : InMemoryPresence) (who : Collaborator) (now : DateTime) : InMemoryPresence :=
  ⟨s.shoppers.put who.id ⟨who, now⟩, s.lastSeen.put who.id now⟩

def heartbeat (s : InMemoryPresence) (collaboratorId : String) (now : DateTime) : InMemoryPresence :=
  if (s.shoppers.get collaboratorId).isSome then
    { s with lastSeen := s.lastSeen.put collaboratorId now }
  else s

def leave (s : InMemoryPresence) (collaboratorId : String) : InMemoryPresence :=
  ⟨s.shoppers.erase collaboratorId, s.lastSeen.erase collaboratorId⟩

def pruneStalePresence (s : InMemoryPresence) (now : DateTime) : InMemoryPresence :=
  let stale := (s.lastSeen.filter fun entry => isStale now entry.2).map (·.1)
  ⟨stale.foldl Assoc.erase s.shoppers, stale.foldl Assoc.erase s.lastSeen⟩

def perform (s : InMemoryPresence) : PresenceCall → InMemoryPresence
  | .enter who now => s.enter who now
  | .heartbeat collaboratorId now => s.heartbeat collaboratorId now
  | .leave collaboratorId => s.leave collaboratorId
  | .pruneStalePresence now => s.pruneStalePresence now

/-- A shopper, and when anything was last heard of them. -/
def entry (s : InMemoryPresence) (id : String) : Option (Shopper × DateTime) :=
  (s.shoppers.get id).bind fun shopper => (s.lastSeen.get id).map fun seen => (shopper, seen)

/-- The two maps are about the same shoppers. -/
structure WellFormed (s : InMemoryPresence) : Prop where
  shoppers : s.shoppers.NodupKeys
  lastSeen : s.lastSeen.NodupKeys
  seen : ∀ id, (s.lastSeen.get id).isSome = (s.shoppers.get id).isSome
  id : ∀ id shopper, s.shoppers.get id = some shopper → shopper.collaborator.id = id

end InMemoryPresence

/-! ## What the calls say of a shopper -/

namespace PresenceCall

/-- The call begins a visit of the shopper. -/
def begins (id : String) : PresenceCall → Option (Shopper × DateTime)
  | enter who now => if who.id = id then some (⟨who, now⟩, now) else none
  | _ => none

/-- What comes of a visit: the shopper, and when they were last heard of. -/
def next (id : String) (visit : Shopper × DateTime) : PresenceCall → Option (Shopper × DateTime)
  | enter _ _ => some visit
  | heartbeat collaboratorId now => some (visit.1, if collaboratorId = id then now else visit.2)
  | leave collaboratorId => if collaboratorId = id then none else some visit
  | pruneStalePresence now => if isStale now visit.2 then none else some visit

end PresenceCall

namespace InMemoryPresence

variable {s : InMemoryPresence}

theorem empty_wellFormed : empty.WellFormed where
  shoppers := List.nodup_nil
  lastSeen := List.nodup_nil
  seen _ := rfl
  id _ _ h := by cases h

theorem mem_stale (h : s.WellFormed) {now : DateTime} {id : String} :
    id ∈ (s.lastSeen.filter fun entry => isStale now entry.2).map (·.1) ↔
      (s.lastSeen.get id).any (isStale now) = true := by
  rw [List.mem_map, Option.any_eq_true]
  constructor
  · rintro ⟨⟨k, seen⟩, hentry, rfl⟩
    obtain ⟨hmem, hstale⟩ := List.mem_filter.mp hentry
    exact ⟨seen, (Assoc.mem_iff_get h.lastSeen).mp hmem, hstale⟩
  · rintro ⟨seen, hget, hstale⟩
    exact ⟨(id, seen), List.mem_filter.mpr ⟨Assoc.mem_of_get hget, hstale⟩, rfl⟩

theorem get_shoppers_pruneStalePresence (h : s.WellFormed) (now : DateTime) (id : String) :
    (s.pruneStalePresence now).shoppers.get id =
      if (s.lastSeen.get id).any (isStale now) then none else s.shoppers.get id := by
  simp only [pruneStalePresence, Assoc.get_foldl_erase, mem_stale h]

theorem get_lastSeen_pruneStalePresence (h : s.WellFormed) (now : DateTime) (id : String) :
    (s.pruneStalePresence now).lastSeen.get id =
      if (s.lastSeen.get id).any (isStale now) then none else s.lastSeen.get id := by
  simp only [pruneStalePresence, Assoc.get_foldl_erase, mem_stale h]

theorem wellFormed_enter (h : s.WellFormed) (who : Collaborator) (now : DateTime) :
    (s.enter who now).WellFormed where
  shoppers := Assoc.nodupKeys_put h.shoppers _ _
  lastSeen := Assoc.nodupKeys_put h.lastSeen _ _
  seen id := by
    simp only [enter, Assoc.get_put]
    split_ifs
    · rfl
    · exact h.seen id
  id id shopper hget := by
    simp only [enter, Assoc.get_put] at hget
    split_ifs at hget with hid
    · rw [← Option.some.inj hget, hid]
    · exact h.id id shopper hget

theorem wellFormed_heartbeat (h : s.WellFormed) (collaboratorId : String) (now : DateTime) :
    (s.heartbeat collaboratorId now).WellFormed := by
  unfold heartbeat
  split_ifs with hshopping
  · refine ⟨h.shoppers, Assoc.nodupKeys_put h.lastSeen _ _, fun id => ?_, h.id⟩
    rw [Assoc.get_put]
    split_ifs with hid
    · rw [hid, hshopping]
      rfl
    · exact h.seen id
  · exact h

theorem wellFormed_leave (h : s.WellFormed) (collaboratorId : String) :
    (s.leave collaboratorId).WellFormed where
  shoppers := Assoc.nodupKeys_erase h.shoppers _
  lastSeen := Assoc.nodupKeys_erase h.lastSeen _
  seen id := by
    simp only [leave, Assoc.get_erase]
    split_ifs
    · rfl
    · exact h.seen id
  id id shopper hget := by
    simp only [leave, Assoc.get_erase] at hget
    split_ifs at hget
    exact h.id id shopper hget

theorem wellFormed_pruneStalePresence (h : s.WellFormed) (now : DateTime) :
    (s.pruneStalePresence now).WellFormed where
  shoppers := Assoc.nodupKeys_foldl_erase h.shoppers _
  lastSeen := Assoc.nodupKeys_foldl_erase h.lastSeen _
  seen id := by
    rw [get_shoppers_pruneStalePresence h, get_lastSeen_pruneStalePresence h]
    split_ifs
    · rfl
    · exact h.seen id
  id id shopper hget := by
    rw [get_shoppers_pruneStalePresence h] at hget
    split_ifs at hget
    exact h.id id shopper hget

theorem wellFormed_perform (h : s.WellFormed) (call : PresenceCall) : (s.perform call).WellFormed := by
  cases call with
  | enter who now => exact wellFormed_enter h who now
  | heartbeat collaboratorId now => exact wellFormed_heartbeat h collaboratorId now
  | leave collaboratorId => exact wellFormed_leave h collaboratorId
  | pruneStalePresence now => exact wellFormed_pruneStalePresence h now

/-! ### One shopper -/

theorem entry_enter (who : Collaborator) (now : DateTime) (id : String) :
    (s.enter who now).entry id = if who.id = id then some (⟨who, now⟩, now) else s.entry id := by
  simp only [enter, entry, Assoc.get_put]
  by_cases hid : who.id = id
  · simp [hid]
  · simp only [if_neg hid, if_neg (Ne.symm hid)]

theorem entry_leave (collaboratorId id : String) :
    (s.leave collaboratorId).entry id = if collaboratorId = id then none else s.entry id := by
  simp only [leave, entry, Assoc.get_erase]
  by_cases hid : collaboratorId = id
  · simp [hid]
  · simp only [if_neg hid, if_neg (Ne.symm hid)]

/-- A heartbeat is heard of who is there. -/
theorem entry_heartbeat (h : s.WellFormed) (collaboratorId : String) (now : DateTime) (id : String) :
    (s.heartbeat collaboratorId now).entry id =
      (s.entry id).map fun visit => (visit.1, if collaboratorId = id then now else visit.2) := by
  unfold heartbeat
  by_cases hid : collaboratorId = id
  · subst hid
    by_cases hshopping : (s.shoppers.get collaboratorId).isSome = true
    · rw [if_pos hshopping]
      obtain ⟨shopper, hshopper⟩ := Option.isSome_iff_exists.mp hshopping
      obtain ⟨seen, hseen⟩ := Option.isSome_iff_exists.mp ((h.seen collaboratorId).trans hshopping)
      simp [entry, hshopper, hseen, Assoc.get_put]
    · rw [if_neg hshopping]
      simp [entry, Option.not_isSome_iff_eq_none.mp hshopping]
  · have hsame : (s.entry id).map (fun visit => (visit.1, if collaboratorId = id then now else visit.2)) =
        s.entry id := by simp [hid]
    rw [hsame]
    split_ifs
    · simp only [entry, Assoc.get_put, if_neg (Ne.symm hid)]
    · rfl

theorem entry_pruneStalePresence (h : s.WellFormed) (now : DateTime) (id : String) :
    (s.pruneStalePresence now).entry id = (s.entry id).filter fun visit => !isStale now visit.2 := by
  simp only [entry, get_shoppers_pruneStalePresence h, get_lastSeen_pruneStalePresence h]
  cases hseen : s.lastSeen.get id with
  | none => simp
  | some seen =>
    cases hstale : isStale now seen <;> cases s.shoppers.get id <;> simp [hstale, Option.filter]

/-- What a call does to one shopper. -/
theorem entry_perform (h : s.WellFormed) (call : PresenceCall) (id : String) :
    (s.perform call).entry id =
      track (PresenceCall.begins id) (PresenceCall.next id) (s.entry id) call := by
  cases call with
  | enter who now =>
    rw [perform, entry_enter]
    by_cases hid : who.id = id
    · simp [track, PresenceCall.begins, hid]
    · simp [track, PresenceCall.begins, PresenceCall.next, hid]
  | heartbeat collaboratorId now =>
    rw [perform, entry_heartbeat h, Option.map_eq_bind]
    rfl
  | leave collaboratorId =>
    rw [perform, entry_leave]
    by_cases hid : collaboratorId = id <;> simp [track, PresenceCall.begins, PresenceCall.next, hid]
  | pruneStalePresence now =>
    rw [perform, entry_pruneStalePresence h]
    cases hentry : s.entry id with
    | none => rfl
    | some visit =>
      cases hstale : isStale now visit.2 <;>
        simp [track, PresenceCall.begins, PresenceCall.next, hstale]

theorem wellFormed_foldl_perform (h : s.WellFormed) (calls : List PresenceCall) :
    (calls.foldl perform s).WellFormed := by
  apply List.foldlRecOn calls perform h
  intro t ht call _
  exact wellFormed_perform ht call

theorem entry_foldl_perform (h : s.WellFormed) (calls : List PresenceCall) (id : String) :
    (calls.foldl perform s).entry id =
      calls.foldl (track (PresenceCall.begins id) (PresenceCall.next id)) (s.entry id) := by
  induction calls generalizing s with
  | nil => rfl
  | cons call calls ih =>
    rw [List.foldl_cons, List.foldl_cons, ih (wellFormed_perform h call), entry_perform h]

theorem mem_watchShoppers (h : s.WellFormed) {shopper : Shopper} : shopper ∈ s.watchShoppers ↔
    ∃ seen, s.entry shopper.collaborator.id = some (shopper, seen) := by
  rw [watchShoppers, List.mem_map]
  constructor
  · rintro ⟨⟨id, shopper⟩, hmem, rfl⟩
    have hget := (Assoc.mem_iff_get h.shoppers).mp hmem
    obtain ⟨seen, hseen⟩ := Option.isSome_iff_exists.mp ((h.seen id).trans (by rw [hget]; rfl))
    refine ⟨seen, ?_⟩
    rw [h.id id shopper hget]
    simp [entry, hget, hseen]
  · rintro ⟨seen, hentry⟩
    obtain ⟨shopper', hget, hseen⟩ := Option.bind_eq_some_iff.mp hentry
    obtain ⟨seen', -, heq⟩ := Option.map_eq_some_iff.mp hseen
    obtain ⟨rfl, -⟩ := Prod.mk.inj heq
    exact ⟨_, Assoc.mem_of_get hget, rfl⟩

/-- Nobody is shown twice. -/
theorem nodup_watchShoppers (h : s.WellFormed) :
    (s.watchShoppers.map (·.collaborator.id)).Nodup := by
  have hids : s.watchShoppers.map (·.collaborator.id) = s.shoppers.map Prod.fst := by
    rw [watchShoppers, List.map_map]
    apply List.map_congr_left
    intro entry hmem
    exact h.id entry.1 entry.2 ((Assoc.mem_iff_get h.shoppers).mp hmem)
  rw [hids]
  exact h.shoppers

end InMemoryPresence

/-- When anything was last heard of a shopper who entered at `since`. -/
def lastHeard (id : String) : DateTime → List PresenceCall → DateTime
  | since, [] => since
  | since, call :: calls => lastHeard id
    (match call with
      | .heartbeat collaboratorId now => if collaboratorId = id then now else since
      | _ => since) calls

/-- Whenever the stale shoppers were dropped, something had been heard of this one lately. -/
def HeardLately (id : String) (since : DateTime) (calls : List PresenceCall) : Prop :=
  ∀ mid now rest, calls = mid ++ .pruneStalePresence now :: rest →
    isStale now (lastHeard id since mid) = false

/-- The shopper has entered, neither entered anew nor left since, and always been heard of. -/
def Shopping (calls : List PresenceCall) (shopper : Shopper) : Prop :=
  ∃ before after, calls = before ++ .enter shopper.collaborator shopper.since :: after ∧
    (∀ who now, .enter who now ∈ after → who.id ≠ shopper.collaborator.id) ∧
    .leave shopper.collaborator.id ∉ after ∧
    HeardLately shopper.collaborator.id shopper.since after

section

variable {id : String} {since : DateTime} {call : PresenceCall} {calls : List PresenceCall}

theorem heardLately_cons : HeardLately id since (call :: calls) ↔
    (∀ now, call = .pruneStalePresence now → isStale now since = false) ∧
      HeardLately id (lastHeard id since [call]) calls := by
  constructor
  · intro h
    refine ⟨fun now hcall => h [] now calls (by rw [hcall]; rfl), fun mid now rest hsplit => ?_⟩
    exact h (call :: mid) now rest (by rw [hsplit]; rfl)
  · rintro ⟨hfirst, hrest⟩ mid now rest hsplit
    cases mid with
    | nil =>
      obtain ⟨hcall, -⟩ := List.cons.inj hsplit
      exact hfirst now hcall
    | cons call' mid =>
      obtain ⟨rfl, hcalls⟩ := List.cons.inj hsplit
      exact hrest mid now rest hcalls

/-- A visit goes on as long as the shopper does not leave and is heard of lately. -/
theorem run_next_eq_some {shopper : Shopper} {visit : Shopper × DateTime} :
    run (PresenceCall.next id) (shopper, since) calls = some visit ↔
      .leave id ∉ calls ∧ HeardLately id since calls ∧ visit = (shopper, lastHeard id since calls) := by
  induction calls generalizing since with
  | nil =>
    have hnone : HeardLately id since [] := fun mid now rest hsplit => by simp at hsplit
    simpa [run, hnone, lastHeard] using eq_comm
  | cons call calls ih =>
    rw [run_cons_eq_some, heardLately_cons]
    cases call with
    | enter who now => simp [PresenceCall.next, ih, lastHeard]
    | heartbeat collaboratorId now => simp [PresenceCall.next, ih, lastHeard]
    | leave collaboratorId =>
      by_cases hid : collaboratorId = id
      · simp [PresenceCall.next, hid]
      · simp [PresenceCall.next, hid, Ne.symm hid, ih, lastHeard]
    | pruneStalePresence now =>
      cases hstale : isStale now since <;> simp [PresenceCall.next, hstale, ih, lastHeard]

theorem begins_eq_none_iff {calls : List PresenceCall} :
    (∀ call ∈ calls, call.begins id = none) ↔ ∀ who now, .enter who now ∈ calls → who.id ≠ id := by
  constructor
  · intro h who now hmem hid
    have hnone := h _ hmem
    simp [PresenceCall.begins, hid] at hnone
  · intro h call hmem
    cases call with
    | enter who now => exact if_neg (h who now hmem)
    | _ => rfl

end

/-- Every shopper is shown once, and those are shown who have entered, who have not left or entered anew
since, and of whom something had been heard in the last half minute whenever the stale ones were dropped.
A heartbeat brings nobody back. -/
theorem watchShoppers_iff (calls : List PresenceCall) :
    ((calls.foldl InMemoryPresence.perform .empty).watchShoppers.map (·.collaborator.id)).Nodup ∧
      ∀ shopper, shopper ∈ (calls.foldl InMemoryPresence.perform .empty).watchShoppers ↔
        Shopping calls shopper := by
  have hempty := InMemoryPresence.empty_wellFormed
  have hformed := InMemoryPresence.wellFormed_foldl_perform hempty calls
  refine ⟨InMemoryPresence.nodup_watchShoppers hformed, fun shopper => ?_⟩
  have hnobody : InMemoryPresence.empty.entry shopper.collaborator.id = none := rfl
  simp only [InMemoryPresence.mem_watchShoppers hformed, InMemoryPresence.entry_foldl_perform hempty,
    hnobody, foldl_track_eq_some]
  constructor
  · rintro ⟨seen, before, call, after, visit, rfl, hbegins, hkeeps, hrun⟩
    cases call with
    | enter who now =>
      by_cases hid : who.id = shopper.collaborator.id
      · obtain rfl := Option.some.inj ((if_pos hid).symm.trans hbegins)
        obtain ⟨hleave, hheard, hvisit⟩ := run_next_eq_some.mp hrun
        obtain ⟨rfl, -⟩ := Prod.mk.inj hvisit
        exact ⟨before, after, rfl, begins_eq_none_iff.mp hkeeps, hleave, hheard⟩
      · cases (if_neg hid).symm.trans hbegins
    | _ => cases hbegins
  · rintro ⟨before, after, rfl, henter, hleave, hheard⟩
    let seen := lastHeard shopper.collaborator.id shopper.since after
    refine ⟨seen, before, _, after, (shopper, shopper.since), rfl, if_pos rfl, ?_, ?_⟩
    · exact begins_eq_none_iff.mpr henter
    · exact run_next_eq_some.mpr ⟨hleave, hheard, rfl⟩

end Duet.Grocery
