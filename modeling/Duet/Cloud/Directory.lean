import Duet.Cloud.Membership

/-!
# The email directory

`usersByEmail` maps an email to the account that is found by it. The rules tie an entry to the
account that stores it, but not to the email of that account.

## Main definitions

* `lookupEmail` — the lookup, its rate limit apart.
* `Server.EntriesOwned` — every entry belongs to an account with that email.
* `Server.PublishesOwnEmail` — a client creates entries under its own email alone.

## Main results

* `Server.entriesOwned_iff` — the entries are owned exactly in the runs whose clients publish
  their own email.
* `Server.deliverInvite_resolves`, `Server.lookedUp_resolves` — then an email resolves to its
  account.
-/

namespace Duet

open Lib Program Verdict

/-! ## `lookupEmail` -/

/-- The last part of `lookupEmail`: what is told about the entry. -/
def lookedUp (entry : Option Fields) : Option Fields :=
  match entry with
  | none => none
  | some entry =>
    if entry.read "discoverable" ≠ .bool true then none
    else some (Assoc.ofList [("uid", entry.read "uid"), ("email", entry.read "email"),
      ("displayName", entry.read "displayName"), ("discoverable", .bool true)])

/-- `enforceRateLimit` keeps its windows in a collection of its own. The key of an email is taken for a
segment of a path; with a blank email, or one with a slash, the request of the entry throws. -/
def lookupEmail (emailKey : String → String) (enforceRateLimit : String → AdminProgram Unit)
    (auth : Option Token) (data : Fields) : AdminProgram (Option Fields) := do
  let token ← orFail auth (.httpsError "unauthenticated" "Sign in to look up a user.")
  let email ← orFail (nonEmptyString? (data.read "email"))
    (.httpsError "invalid-argument" "An email is required.")
  enforceRateLimit token.uid
  let entry ← getDoc (.usersByEmail (emailKey email))
  done (lookedUp entry)

namespace Server

variable {emailKey email : String → String} {s t : Server}

/-- Every entry of the directory belongs to an account with that email, where `email` is the one in
an account's token. -/
def EntriesOwned (emailKey email : String → String) (s : Server) : Prop :=
  ∀ key entry, s.cloud.doc (.usersByEmail key) = some entry →
    ∃ uid, entry.read "uid" = .string uid ∧ emailKey (email uid) = key

/-- A client whom the rules let create an entry does so under its own email. -/
def PublishesOwnEmail (emailKey email : String → String) (s : Server) : ServerEvent → Prop
  | .write uid write =>
    match write.path with
    | .usersByEmail key => s.cloud.doc (.usersByEmail key) = none →
        s.cloud.permitsWrite (some uid) write → emailKey (email uid) = key
    | _ => True
  | _ => True

/-- The operations of the callables create no entries. -/
theorem entry_of_callable {op : Operation} (h : CallableOperation op) {c : Cloud} {key : String}
    {entry : Fields} (hentry : (op.perform c).2.doc (.usersByEmail key) = some entry) :
    c.doc (.usersByEmail key) = some entry := by
  cases op with
  | get path => exact hentry
  | list query => exact hentry
  | commit writes =>
    obtain ⟨path, rfl⟩ | ⟨pieceId, uid, entries, rfl⟩ | ⟨uid, messageId, rfl⟩ |
      ⟨uid, messageId, fields, rfl⟩ := h
    · rw [Operation.perform_write] at hentry
      simp only [Write.result, Write.path, Cloud.doc_store] at hentry
      split_ifs at hentry
      exact hentry
    all_goals
      rwa [Operation.doc_perform_of_not (fun path => ∀ key, path ≠ .usersByEmail key) (by
        simp [Operation.OnlyWrites, Write.path]) (by simp)] at hentry
  | transaction body =>
    obtain ⟨uid, name, mail, pieceId, rfl⟩ | ⟨uid, pieceId, rfl⟩ := h
    · rwa [Operation.doc_perform_of_not _ (onlyWrites_joinPiece uid name mail pieceId) (by simp)]
        at hentry
    · rwa [Operation.doc_perform_of_not _ (onlyWrites_dropFromPiece uid pieceId) (by simp)] at hentry

/-- What the rules let a client do to the directory. -/
theorem entry_of_permitsWrite {c : Cloud} {uid key : String} {write : Write} {fields : Fields}
    (hpath : write.path = .usersByEmail key) (hpermits : c.permitsWrite (some uid) write)
    (hfields : write.result (c.doc write.path) = .ok (some fields)) :
    fields.read "uid" = .string uid ∧
      ∀ old, c.doc (.usersByEmail key) = some old → old.read "uid" = .string uid := by
  rw [Cloud.permitsWrite, hfields] at hpermits
  dsimp only at hpermits
  rw [hpath, Cloud.permits, Cloud.verdict] at hpermits
  cases hold : c.doc (.usersByEmail key) with
  | none =>
    simp only [hold, Option.isSome, Bool.false_eq_true, reduceIte, usersByEmailRule, holds_and,
      holds_eq, signedIn_some, uid_some, dataField_some] at hpermits
    obtain ⟨-, value, hvalue, hnew⟩ := hpermits
    obtain rfl := Option.some.inj hvalue
    exact ⟨by simp [Fields.read, hnew], fun _ hold => by cases hold⟩
  | some old =>
    simp only [hold, Option.isSome, reduceIte, usersByEmailRule, holds_and,
      holds_eq, signedIn_some, uid_some, dataField_some] at hpermits
    obtain ⟨⟨-, value, hvalue, hold⟩, value', hvalue', hnew⟩ := hpermits
    obtain rfl := Option.some.inj hvalue
    obtain rfl := Option.some.inj hvalue'
    refine ⟨by simp [Fields.read, hnew], ?_⟩
    intro old' hold'
    obtain rfl := Option.some.inj hold'
    simp [Fields.read, hold]

/-- One step keeps the entries owned exactly when it publishes no other email. -/
theorem entriesOwned_step {event : ServerEvent}
    (hcalls : ∀ call ∈ s.running, call.program.Issues (fun _ _ => True) CallableOperation)
    (h : s.EntriesOwned emailKey email) (hstep : step emailKey s event = some t) :
    t.EntriesOwned emailKey email ↔ s.PublishesOwnEmail emailKey email event := by
  cases event with
  | call request =>
    obtain rfl := Option.some.inj hstep
    exact iff_of_true h trivial
  | advance i =>
    obtain ⟨call, op, k, hi, hprogram, rfl⟩ := advance_step.mp hstep
    refine iff_of_true ?_ trivial
    intro key entry hentry
    rw [advance_cloud hprogram] at hentry
    have hop := (hcalls call (List.mem_of_getElem? hi)).next (congrArg next? hprogram)
    exact h key entry (entry_of_callable hop hentry)
  | write uid write =>
    obtain ⟨hpermits, fields, hfields, rfl⟩ := write_step.mp hstep
    have hother : ∀ key, write.path ≠ .usersByEmail key →
        (s.cloud.store write.path fields).doc (.usersByEmail key) =
          s.cloud.doc (.usersByEmail key) := fun key hpath => s.cloud.doc_store_of_ne hpath.symm _
    simp only [PublishesOwnEmail]
    split
    · rename_i key hpath
      constructor
      · intro hentries hnone _
        have hcreate : ∃ entry, fields = some entry := by
          cases fields with
          | some entry => exact ⟨entry, rfl⟩
          | none =>
            rw [Cloud.permitsWrite, hfields] at hpermits
            simp [hpath, Cloud.permits, Cloud.verdict, usersByEmailRule, hnone, holds_eq] at hpermits
        obtain ⟨entry, rfl⟩ := hcreate
        have hnew := (entry_of_permitsWrite hpath hpermits hfields).1
        obtain ⟨uid', huid, hkey⟩ := hentries key entry (by rw [← hpath]; simp)
        obtain rfl := Value.string.inj (hnew.symm.trans huid)
        exact hkey
      · intro hown key' entry hentry
        by_cases hkey : key' = key
        · subst hkey
          dsimp only at hentry
          rw [hpath, Cloud.doc_store_self] at hentry
          subst hentry
          obtain ⟨hnew, hold⟩ := entry_of_permitsWrite hpath hpermits hfields
          refine ⟨uid, hnew, ?_⟩
          cases hdoc : s.cloud.doc (.usersByEmail key') with
          | none => exact hown hdoc hpermits
          | some old =>
            obtain ⟨uid', huid, hkey⟩ := h key' old hdoc
            obtain rfl := Value.string.inj ((hold old hdoc).symm.trans huid)
            exact hkey
        · refine h key' entry ((hother key' ?_).symm.trans hentry)
          rw [hpath]
          simpa [eq_comm] using hkey
    · rename_i hpath
      refine iff_of_true ?_ trivial
      intro key entry hentry
      exact h key entry ((hother key (hpath key)).symm.trans hentry)

/-- The directory says who holds an email exactly in the runs in which clients publish their own. -/
theorem entriesOwned_iff (emailKey email : String → String) (events : List ServerEvent) :
    Always (step emailKey) (EntriesOwned emailKey email) initial events ↔
      EachStep (step emailKey) (PublishesOwnEmail emailKey email) initial events := by
  let Calling (s : Server) : Prop :=
    ∀ call ∈ s.running, call.program.Issues (fun _ _ => True) CallableOperation
  have hinitial : Calling initial := fun call hcall => nomatch hcall
  refine always_iff_eachStep (fun s e t h _ hstep => ?_) (fun s e t h hp hstep => ?_) ?_ hinitial
    (fun key entry h => nomatch h)
  · exact running_step (issues_callable emailKey) (fun _ _ _ => trivial) h hstep
  · exact entriesOwned_step h hp hstep
  · intro s event hnone
    cases event with
    | write uid write =>
      simp only [PublishesOwnEmail]
      split
      · intro _ hpermits
        obtain ⟨fields, -, hsome⟩ := @write_step_isSome emailKey _ _ _ hpermits
        simp [hnone] at hsome
      · trivial
    | call request => trivial
    | advance i => trivial

/-! ## What an email resolves to -/

/-- The recipient of an invite is the account with the email that was asked for. -/
theorem deliverInvite_resolves (h : s.EntriesOwned emailKey email) {token : Token}
    {pieceId messageId inviteeEmail recipientUid : String} {now : Int} {fields : Fields}
    (hdeliver : (deliverInvite token pieceId messageId now
        (s.cloud.doc (.usersByEmail (emailKey inviteeEmail)))).next? =
      some (.commit [.set (.userInbox recipientUid messageId) fields])) :
    emailKey (email recipientUid) = emailKey inviteeEmail := by
  cases hentry : s.cloud.doc (.usersByEmail (emailKey inviteeEmail)) with
  | none => simp [deliverInvite, hentry, next?] at hdeliver
  | some entry =>
    obtain ⟨uid, huid, hkey⟩ := h _ entry hentry
    simp only [deliverInvite, hentry] at hdeliver
    split_ifs at hdeliver
    · cases hdeliver
    · rw [huid] at hdeliver
      change some (Operation.commit [.set (.userInbox uid messageId) _]) = _ at hdeliver
      simp only [Option.some.injEq, Operation.commit.injEq, List.cons.injEq, Write.set.injEq,
        DocPath.userInbox.injEq] at hdeliver
      rw [← hdeliver.1.1.1, hkey]

/-- So is the account that a lookup finds. -/
theorem lookedUp_resolves (h : s.EntriesOwned emailKey email) {address : String} {user : Fields}
    (huser : lookedUp (s.cloud.doc (.usersByEmail (emailKey address))) = some user) :
    ∃ uid, user.read "uid" = .string uid ∧ emailKey (email uid) = emailKey address := by
  cases hentry : s.cloud.doc (.usersByEmail (emailKey address)) with
  | none => simp [lookedUp, hentry] at huser
  | some entry =>
    obtain ⟨uid, huid, hkey⟩ := h _ entry hentry
    refine ⟨uid, ?_, hkey⟩
    simp only [lookedUp, hentry] at huser
    split_ifs at huser
    obtain rfl := Option.some.inj huser
    simpa [Assoc.ofList, Fields.read_set] using huid

/-! ## A squatter -/

/-- `bob` publishes an entry under the address of `ann`. -/
def bobSquats : List ServerEvent :=
  [.write "bob" (.set (.usersByEmail "ann@duet.app")
    (Assoc.ofList [("uid", .string "bob"), ("email", .string "ann@duet.app"),
      ("discoverable", .bool true)]))]

theorem squatter_found :
    ¬Always (step id) (EntriesOwned id fun uid => uid ++ "@duet.app") initial bobSquats := by
  intro halways
  have hbob : (run (step id) initial bobSquats).any (fun s =>
      (s.cloud.doc (.usersByEmail "ann@duet.app")).any fun entry =>
        entry.read "uid" = .string "bob") = true := by decide +kernel
  obtain ⟨s, hrun, hbob⟩ := (Option.any_eq_true _ _).mp hbob
  obtain ⟨entry, hentry, hbob⟩ := (Option.any_eq_true _ _).mp hbob
  obtain ⟨uid, huid, hkey⟩ := halways.last hrun _ entry hentry
  obtain rfl := Value.string.inj ((of_decide_eq_true hbob).symm.trans huid)
  exact absurd hkey (by decide)

end Server

end Duet
