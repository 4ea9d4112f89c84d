import Duet.Lib.Transition
import Duet.Lib.Value
import Mathlib.Data.List.Chain

/-!
# User roles

The role of the signed-in user, as it is cached for permission checks. One repository reads it from
the preferences when a user id is emitted; the other listens to the user's document.

## Main definitions

* `AppRole`, `resolveRole` — roles, and the role that a stored name stands for.
* `RoleCache` — the cached role, its permission checks and the roles that are emitted.
* `LocalUserRoleRepository`, `FirestoreUserRoleRepository` — the two repositories.

`RoleCache.Distinct` says that a role is emitted when it changes and only then.
-/

namespace Duet

open Lib

structure AppRole where
  name : String
  rank : Int
  deriving DecidableEq, Repr

namespace AppRole

def guest : AppRole := ⟨"guest", 0⟩

def member : AppRole := ⟨"member", 10⟩

def admin : AppRole := ⟨"admin", 100⟩

def defaults : List AppRole := [guest, member, admin]

end AppRole

abbrev Permission := String

namespace Permissions

def viewAdminPanel : Permission := "view_admin_panel"

def managePremiumContent : Permission := "manage_premium_content"

def accessPremiumContent : Permission := "access_premium_content"

end Permissions

/-- Role names and their permissions. -/
def defaultRolePermissions : Assoc String (List Permission) :=
  [("guest", []),
    ("member", [Permissions.accessPremiumContent]),
    ("admin", [Permissions.accessPremiumContent, Permissions.managePremiumContent,
      Permissions.viewAdminPanel])]

/-- The first known role of the name; a guest when there is none. -/
def resolveRole (knownRoles : List AppRole) : Option String → AppRole
  | none => .guest
  | some name => (knownRoles.find? (·.name = name)).getD .guest

/-! ## The cached role -/

/-- The cached role, and the roles that have been emitted. -/
structure RoleCache where
  cachedRole : AppRole
  currentRole : List AppRole
  deriving DecidableEq, Repr

namespace RoleCache

def initial : RoleCache := ⟨.guest, []⟩

def emitIfChanged (c : RoleCache) (role : AppRole) : RoleCache :=
  if role = c.cachedRole then c else ⟨role, c.currentRole ++ [role]⟩

def hasPermission (rolePermissions : Assoc String (List Permission)) (c : RoleCache)
    (permission : Permission) : Bool :=
  ((rolePermissions.get c.cachedRole.name).getD []).contains permission

def hasMinimumRole (c : RoleCache) (role : AppRole) : Bool := c.cachedRole.rank ≥ role.rank

@[simp] theorem cachedRole_emitIfChanged (c : RoleCache) (role : AppRole) :
    (c.emitIfChanged role).cachedRole = role := by
  unfold emitIfChanged
  split_ifs with h
  · exact h.symm
  · rfl

/-- The roles that have been emitted lead to the cached one, and each differs from the one before. -/
structure Distinct (c : RoleCache) : Prop where
  last : (AppRole.guest :: c.currentRole).getLast (List.cons_ne_nil _ _) = c.cachedRole
  changes : (AppRole.guest :: c.currentRole).IsChain (· ≠ ·)

theorem distinct_initial : initial.Distinct := ⟨rfl, .singleton _⟩

theorem Distinct.emitIfChanged {c : RoleCache} (h : c.Distinct) (role : AppRole) :
    (c.emitIfChanged role).Distinct := by
  unfold RoleCache.emitIfChanged
  split_ifs with hrole
  · exact h
  · constructor
    · simp
    · rw [← List.cons_append, List.isChain_append]
      refine ⟨h.changes, .singleton _, ?_⟩
      intro last hlast next hnext
      rw [List.getLast?_eq_some_getLast (List.cons_ne_nil _ _), h.last] at hlast
      obtain rfl := Option.some.inj hlast
      obtain rfl := Option.some.inj hnext
      exact Ne.symm hrole

end RoleCache

/-! ## The repository on the device -/

/-- The stored role names, and the user whose role is cached. -/
structure LocalUserRoleRepository where
  storage : Assoc String String
  cache : RoleCache
  currentUserId : Option String
  deriving DecidableEq, Repr

namespace LocalUserRoleRepository

def keyPrefix : String := "user_roles.role."

def create (storage : Assoc String String) : LocalUserRoleRepository := ⟨storage, .initial, none⟩

def onUserIdChanged (knownRoles : List AppRole) (r : LocalUserRoleRepository)
    (userId : Option String) : LocalUserRoleRepository :=
  match userId with
  | none => { r with currentUserId := none, cache := r.cache.emitIfChanged .guest }
  | some userId =>
    let storedName := r.storage.get (keyPrefix ++ userId)
    { r with
      currentUserId := some userId
      cache := r.cache.emitIfChanged (resolveRole knownRoles storedName) }

def assignRole (r : LocalUserRoleRepository) (userId : String) (role : AppRole) :
    LocalUserRoleRepository :=
  { r with
    storage := r.storage.set (keyPrefix ++ userId) role.name
    cache := if some userId = r.currentUserId then r.cache.emitIfChanged role else r.cache }

/-- The repository once the user ids have been emitted. -/
def after (knownRoles : List AppRole) (storage : Assoc String String)
    (userIds : List (Option String)) : LocalUserRoleRepository :=
  userIds.foldl (onUserIdChanged knownRoles) (create storage)

end LocalUserRoleRepository

/-! ## The repository over documents -/

/-- The cached role and the user's document that is listened to, with the number of the listen; and,
for what a run is to say, the user id emitted last, the snapshot that the present listen has received
last, and the role that was delivered last for each user. -/
structure FirestoreUserRoleRepository where
  cache : RoleCache
  docSubscription : Option (Nat × String)
  listens : Nat
  emitted : Option String
  arrived : Option (Option Fields)
  delivered : Assoc String AppRole
  deriving DecidableEq, Repr

/-- A user id is emitted, or a snapshot of a document arrives for a listen; a listen that has been
cancelled gets none. -/
inductive RoleEvent where
  | userId (userId : Option String)
  | snapshot (listen : Nat) (data : Option Fields)
  deriving DecidableEq, Repr

namespace FirestoreUserRoleRepository

def create : FirestoreUserRoleRepository := ⟨.initial, none, 0, none, none, []⟩

/-- `snapshot.data()?['role'] as String?`; the cast throws when it is not a string. -/
def storedName? (data : Option Fields) : Option (Option String) :=
  match data with
  | none => some none
  | some fields => (fields.read "role").orNull Value.asString

def onUserIdChanged (r : FirestoreUserRoleRepository) (userId : Option String) :
    FirestoreUserRoleRepository :=
  match userId with
  | none =>
    { r with
      docSubscription := none
      cache := r.cache.emitIfChanged .guest
      emitted := none
      arrived := none }
  | some userId =>
    { r with
      docSubscription := some (r.listens, userId)
      listens := r.listens + 1
      emitted := some userId
      arrived := none }

def onSnapshot (knownRoles : List AppRole) (r : FirestoreUserRoleRepository) (userId : String)
    (data : Option Fields) : FirestoreUserRoleRepository :=
  match storedName? data with
  | none => { r with arrived := some data }
  | some storedName =>
    let role := resolveRole knownRoles storedName
    { r with
      cache := r.cache.emitIfChanged role
      arrived := some data
      delivered := r.delivered.set userId role }

def step (knownRoles : List AppRole) (r : FirestoreUserRoleRepository) :
    RoleEvent → Option FirestoreUserRoleRepository
  | .userId userId => some (r.onUserIdChanged userId)
  | .snapshot listen data =>
    match r.docSubscription with
    | none => some r
    | some (current, userId) =>
      if listen = current then some (r.onSnapshot knownRoles userId data) else some r

end FirestoreUserRoleRepository

/-- The user ids among the events. -/
def userIds (events : List RoleEvent) : List (Option String) :=
  events.filterMap fun
    | .userId userId => some userId
    | .snapshot _ _ => none

end Duet
