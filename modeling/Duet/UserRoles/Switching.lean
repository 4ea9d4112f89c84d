import Duet.UserRoles.Repositories

/-!
# A change of users

What the cached role tells about the user id that was emitted last. The repository on the device
reads the role when the user id is emitted; the one over documents keeps the role of the user before
until the document of the next one arrives.

## Main results

* `LocalUserRoleRepository.after_holdsStored` — the repository on the device has the stored role.
* `FirestoreUserRoleRepository.holdsOwnRole_iff` — when the repository over documents has no role of
  another user, and that it agrees with the one on the device once the document has arrived.
-/

namespace Duet

open Lib

/-! ## On the device -/

namespace LocalUserRoleRepository

/-- The role that is stored for the current user, a guest's without one. -/
def storedRole (knownRoles : List AppRole) (r : LocalUserRoleRepository) : AppRole :=
  match r.currentUserId with
  | none => .guest
  | some userId => resolveRole knownRoles (r.storage.get (keyPrefix ++ userId))

/-- The cached role is the one that is stored for the current user. -/
def HoldsStored (knownRoles : List AppRole) (r : LocalUserRoleRepository) : Prop :=
  r.cache.cachedRole = r.storedRole knownRoles

variable {knownRoles : List AppRole} {r : LocalUserRoleRepository}

theorem holdsStored_onUserIdChanged (userId : Option String) :
    (r.onUserIdChanged knownRoles userId).HoldsStored knownRoles := by
  cases userId <;> simp [HoldsStored, storedRole, onUserIdChanged]

/-- A role that its name stands for may be assigned to any user. -/
theorem HoldsStored.assignRole {userId : String} {role : AppRole} (h : r.HoldsStored knownRoles)
    (hknown : resolveRole knownRoles (some role.name) = role) :
    (r.assignRole userId role).HoldsStored knownRoles := by
  unfold HoldsStored storedRole at h ⊢
  cases hcurrent : r.currentUserId with
  | none => simpa [LocalUserRoleRepository.assignRole, hcurrent] using h
  | some current =>
    rw [hcurrent] at h
    by_cases hsame : userId = current
    · simp [LocalUserRoleRepository.assignRole, hcurrent, hsame, hknown]
    · have hkey : keyPrefix ++ current ≠ keyPrefix ++ userId := by
        simpa [String.append_right_inj] using Ne.symm hsame
      simpa [LocalUserRoleRepository.assignRole, hcurrent, hsame, Assoc.get_set_of_ne _ hkey] using h

@[simp] theorem storage_onUserIdChanged (userId : Option String) :
    (r.onUserIdChanged knownRoles userId).storage = r.storage := by
  cases userId <;> rfl

@[simp] theorem currentUserId_onUserIdChanged (userId : Option String) :
    (r.onUserIdChanged knownRoles userId).currentUserId = userId := by
  cases userId <;> rfl

variable {storage : Assoc String String} {userIds : List (Option String)}

theorem after_append (userId : Option String) : after knownRoles storage (userIds ++ [userId]) =
    (after knownRoles storage userIds).onUserIdChanged knownRoles userId := by
  simp [after]

@[simp] theorem storage_after : (after knownRoles storage userIds).storage = storage := by
  induction userIds using List.reverseRecOn with
  | nil => rfl
  | append_singleton userIds userId ih => rw [after_append, storage_onUserIdChanged, ih]

theorem after_holdsStored : (after knownRoles storage userIds).HoldsStored knownRoles := by
  induction userIds using List.reverseRecOn with
  | nil => rfl
  | append_singleton userIds userId ih =>
    rw [after_append]
    exact holdsStored_onUserIdChanged userId

end LocalUserRoleRepository

/-! ## Over documents -/

namespace FirestoreUserRoleRepository

variable {knownRoles : List AppRole} {r t : FirestoreUserRoleRepository}

/-- The cached role is a guest's, or the one delivered last for the user id emitted last. -/
def HoldsOwnRole (r : FirestoreUserRoleRepository) : Prop :=
  r.cache.cachedRole = .guest ∨
    ∃ userId, r.emitted = some userId ∧ r.delivered.get userId = some r.cache.cachedRole

/-- A user id is emitted while the cached role is a guest's, or the one delivered last for it. -/
def SwitchesCleanly (r : FirestoreUserRoleRepository) : RoleEvent → Prop
  | .userId none => True
  | .userId (some userId) =>
    r.cache.cachedRole = .guest ∨ r.delivered.get userId = some r.cache.cachedRole
  | .snapshot _ _ => True

/-- The document that the present listen has received last has the user's name. -/
def Arrived (storage : Assoc String String) (r : FirestoreUserRoleRepository) : Prop :=
  ∀ userId, r.emitted = some userId → ∃ data, r.arrived = some data ∧
    storedName? data = some (storage.get (LocalUserRoleRepository.keyPrefix ++ userId))

/-- What the repository listens to, and what it has for the last snapshot. -/
structure Inv (knownRoles : List AppRole) (r : FirestoreUserRoleRepository) : Prop where
  listensTo : r.docSubscription.map Prod.snd = r.emitted
  signedOut : r.emitted = none → r.cache.cachedRole = .guest
  current : ∀ data name, r.arrived = some data → storedName? data = some name →
    r.cache.cachedRole = resolveRole knownRoles name
  distinct : r.cache.Distinct

theorem inv_create : create.Inv knownRoles where
  listensTo := rfl
  signedOut _ := rfl
  current := nofun
  distinct := RoleCache.distinct_initial

/-- A snapshot is dropped, or it is the user's. -/
theorem step_snapshot {listen : Nat} {data : Option Fields}
    (h : step knownRoles r (.snapshot listen data) = some t) :
    t = r ∨ ∃ userId, r.docSubscription = some (listen, userId) ∧
      t = r.onSnapshot knownRoles userId data := by
  rw [step] at h
  split at h
  · exact .inl (Option.some.inj h).symm
  · next current userId hcurrent =>
    split_ifs at h with hlisten
    · exact .inr ⟨userId, by rw [hcurrent, hlisten], (Option.some.inj h).symm⟩
    · exact .inl (Option.some.inj h).symm

theorem Inv.onUserIdChanged (h : r.Inv knownRoles) (userId : Option String) :
    (r.onUserIdChanged userId).Inv knownRoles := by
  cases userId with
  | none =>
    refine ⟨rfl, fun _ => RoleCache.cachedRole_emitIfChanged _ _, nofun, ?_⟩
    exact h.distinct.emitIfChanged _
  | some userId => exact ⟨rfl, nofun, nofun, h.distinct⟩

theorem Inv.onSnapshot {userId : String} {data : Option Fields} (h : r.Inv knownRoles)
    (hemitted : r.emitted = some userId) : (r.onSnapshot knownRoles userId data).Inv knownRoles := by
  unfold FirestoreUserRoleRepository.onSnapshot
  split
  · next hname =>
    refine { h with current := fun data' name hdata hname' => ?_ }
    obtain rfl := Option.some.inj hdata
    cases hname.symm.trans hname'
  · next storedName hname =>
    refine ⟨h.listensTo, fun hnone => ?_, fun data' name hdata hname' => ?_,
      h.distinct.emitIfChanged _⟩
    · cases hemitted.symm.trans hnone
    · obtain rfl := Option.some.inj hdata
      obtain rfl := Option.some.inj (hname.symm.trans hname')
      exact RoleCache.cachedRole_emitIfChanged _ _

theorem Inv.emitted_of_listens {listen : Nat} {userId : String} (h : r.Inv knownRoles)
    (hlisten : r.docSubscription = some (listen, userId)) : r.emitted = some userId := by
  rw [← h.listensTo, hlisten, Option.map_some]

theorem Inv.step {event : RoleEvent} (h : r.Inv knownRoles)
    (hstep : step knownRoles r event = some t) : t.Inv knownRoles := by
  cases event with
  | userId userId =>
    obtain rfl := Option.some.inj hstep
    exact h.onUserIdChanged userId
  | snapshot listen data =>
    obtain rfl | ⟨userId, hlisten, rfl⟩ := step_snapshot hstep
    · exact h
    · exact h.onSnapshot (h.emitted_of_listens hlisten)

/-- A snapshot brings the user's own role. -/
theorem HoldsOwnRole.onSnapshot {userId : String} {data : Option Fields} (h : r.HoldsOwnRole)
    (hemitted : r.emitted = some userId) : (r.onSnapshot knownRoles userId data).HoldsOwnRole := by
  unfold FirestoreUserRoleRepository.onSnapshot
  split
  · exact h
  · exact .inr ⟨userId, hemitted, by simp⟩

/-- After one event, the condition is exact. -/
theorem holdsOwnRole_step_iff {event : RoleEvent} (hinv : r.Inv knownRoles) (h : r.HoldsOwnRole)
    (hstep : step knownRoles r event = some t) : t.HoldsOwnRole ↔ r.SwitchesCleanly event := by
  cases event with
  | userId userId =>
    obtain rfl := Option.some.inj hstep
    cases userId with
    | none => exact ⟨fun _ => trivial, fun _ => .inl (RoleCache.cachedRole_emitIfChanged _ _)⟩
    | some userId => simp [HoldsOwnRole, SwitchesCleanly, onUserIdChanged]
  | snapshot listen data =>
    refine ⟨fun _ => trivial, fun _ => ?_⟩
    obtain rfl | ⟨userId, hlisten, rfl⟩ := step_snapshot hstep
    · exact h
    · exact h.onSnapshot (hinv.emitted_of_listens hlisten)

theorem exists_step (knownRoles : List AppRole) (r : FirestoreUserRoleRepository)
    (event : RoleEvent) : ∃ t, step knownRoles r event = some t := by
  cases event with
  | userId userId => exact ⟨_, rfl⟩
  | snapshot listen data =>
    rw [step]
    split
    · exact ⟨_, rfl⟩
    · split_ifs <;> exact ⟨_, rfl⟩

theorem always_holdsOwnRole_iff {events : List RoleEvent} (hinv : r.Inv knownRoles)
    (h : r.HoldsOwnRole) : Always (step knownRoles) HoldsOwnRole r events ↔
      EachStep (step knownRoles) SwitchesCleanly r events := by
  refine always_iff_eachStep (I := Inv knownRoles) (fun _ _ _ hinv _ hstep => hinv.step hstep)
    (fun _ _ _ hinv h hstep => holdsOwnRole_step_iff hinv h hstep) (fun r event hnone => ?_) hinv h
  obtain ⟨t, hstep⟩ := exists_step knownRoles r event
  cases hnone.symm.trans hstep

/-! ### The two repositories -/

variable {storage : Assoc String String} {events : List RoleEvent}

/-- The user id emitted last is the other repository's current user. -/
theorem currentUserId_foldl_eq_emitted {onDevice : LocalUserRoleRepository}
    (h : onDevice.currentUserId = r.emitted) (hrun : run (step knownRoles) r events = some t) :
    ((userIds events).foldl (LocalUserRoleRepository.onUserIdChanged knownRoles)
      onDevice).currentUserId = t.emitted := by
  induction events generalizing r onDevice with
  | nil =>
    obtain rfl := Option.some.inj hrun
    exact h
  | cons event events ih =>
    obtain ⟨u, hstep, hrest⟩ := run_cons_eq_some.mp hrun
    cases event with
    | userId userId =>
      obtain rfl := Option.some.inj hstep
      refine ih ?_ hrest
      rw [LocalUserRoleRepository.currentUserId_onUserIdChanged]
      cases userId <;> rfl
    | snapshot listen data =>
      have hemitted : u.emitted = r.emitted := by
        obtain rfl | ⟨userId, -, rfl⟩ := step_snapshot hstep
        · rfl
        · unfold onSnapshot
          split <;> rfl
      exact ih (h.trans hemitted.symm) hrest

/-- Once the document has arrived, the repositories have the same role. -/
theorem agrees_of_arrived (hrun : run (step knownRoles) create events = some t)
    (harrived : t.Arrived storage) : t.cache.cachedRole =
      (LocalUserRoleRepository.after knownRoles storage (userIds events)).cache.cachedRole := by
  have hinv : t.Inv knownRoles := run_invariant' (fun _ _ _ h hstep => h.step hstep) inv_create hrun
  have hcurrent : (LocalUserRoleRepository.after knownRoles storage
      (userIds events)).currentUserId = t.emitted := currentUserId_foldl_eq_emitted rfl hrun
  rw [LocalUserRoleRepository.after_holdsStored, LocalUserRoleRepository.storedRole, hcurrent,
    LocalUserRoleRepository.storage_after]
  cases hemitted : t.emitted with
  | none => exact hinv.signedOut hemitted
  | some userId =>
    obtain ⟨data, hdata, hname⟩ := harrived userId hemitted
    exact hinv.current data _ hdata hname

/-- The cached role is never one of an earlier user exactly when no user id is emitted while it is;
and the repositories agree once the document has arrived. -/
theorem holdsOwnRole_iff (knownRoles : List AppRole) (events : List RoleEvent) :
    (Always (step knownRoles) HoldsOwnRole create events ∧
      ∀ storage r, run (step knownRoles) create events = some r → r.Arrived storage →
        r.cache.cachedRole =
          (LocalUserRoleRepository.after knownRoles storage (userIds events)).cache.cachedRole) ↔
      EachStep (step knownRoles) SwitchesCleanly create events := by
  refine Iff.trans (and_iff_left fun storage r hrun harrived => ?_) ?_
  · exact agrees_of_arrived hrun harrived
  · exact always_holdsOwnRole_iff inv_create (.inl rfl)

/-- An administrator hands over to a user whose document has not arrived. -/
theorem not_holdsOwnRole : ∃ r, run (step AppRole.defaults) create
    [.userId (some "ada"), .snapshot 0 (some [("role", .string "admin")]), .userId (some "bob")] =
      some r ∧
    r.emitted = some "bob" ∧ r.delivered.get "bob" = none ∧
      r.cache.hasPermission defaultRolePermissions Permissions.viewAdminPanel ∧ ¬r.HoldsOwnRole := by
  refine ⟨_, rfl, rfl, rfl, by decide, ?_⟩
  rintro (hguest | ⟨userId, hemitted, hdelivered⟩)
  · exact absurd hguest (by decide)
  · obtain rfl := Option.some.inj hemitted
    cases hdelivered

end FirestoreUserRoleRepository

end Duet
