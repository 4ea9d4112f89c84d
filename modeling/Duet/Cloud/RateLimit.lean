import Duet.Cloud.Backend
import Duet.Lib.FixedWindow

/-!
# The budget for lookups

`lookupEmail` counts the calls of a user in a window that is kept in one document, so the budget is
for each window: an interval as long as a window may meet two of them.

Only the transaction of `enforceRateLimit` touches what the budget is kept in, and its clock is read
in it; a call is one step here.

## Main results

* `lookup_budget` — how many calls of a user are let through in an interval no longer than a window,
  that the calls of other users do not count, and what has been let through when a call is refused.
* `not_sliding` — twice the budget within a window's time.
-/

namespace Duet

open Lib Program

/-- A call of `lookupEmail`, and the clock as its transaction reads it. -/
structure LookupCall where
  auth : Option Token
  data : Fields
  now : Int
  deriving DecidableEq, Repr

/-- The documents, the last clock, and the calls so far with their outcomes. -/
structure Lookups where
  cloud : Cloud
  clock : Int
  log : List (LookupCall × Except CloudFailure (Option Fields))

namespace LookupCall

/-- The call is one of the user's. -/
def isBy (uid : String) (call : LookupCall) : Bool := call.auth.any (·.uid == uid)

/-- What `enforceRateLimit` fails with. -/
def tooMany : CloudFailure :=
  .httpsError "resource-exhausted" "Too many lookups. Please wait a minute and try again."

end LookupCall

namespace Lookups

section

variable (emailKey : String → String)

/-- One call, no earlier than the one before it. -/
def step (s : Lookups) (call : LookupCall) : Option Lookups :=
  if s.clock ≤ call.now then
    let (outcome, cloud) := (lookupEmail emailKey (enforceRateLimit call.now) call.auth
      call.data).exec Operation.perform s.cloud
    some ⟨cloud, call.now, s.log ++ [(call, outcome)]⟩
  else none

/-- No call has been made. -/
def start (cloud : Cloud) (clock : Int) : Lookups := ⟨cloud, clock, []⟩

end

/-- The times of the user's calls that have been let through. -/
def admitted (uid : String) (log : List (LookupCall × Except CloudFailure (Option Fields))) :
    List Int :=
  (log.filter fun entry => entry.1.isBy uid && entry.2.isOk).map (·.1.now)

/-! ## One call -/

/-- The document of a window. -/
def windowDoc (w : Window) : Fields :=
  Assoc.ofList [("windowStart", .timestamp (w.start * 1000)), ("count", .int w.count)]

section

variable {cloud : Cloud} {uid : String} {now : Int} {window : Option Window}

theorem windowDoc_eq (w : Window) : windowDoc w =
    Assoc.set (Assoc.set [] "windowStart" (.timestamp (w.start * 1000))) "count" (.int w.count) := by
  simp only [windowDoc, Assoc.ofList, List.foldl_cons, List.foldl_nil]

theorem windowStartOf?_windowDoc (w : Window) :
    windowStartOf? ((windowDoc w).read "windowStart") = some w.start := by
  rw [windowDoc_eq, Fields.read_set, Fields.read_set, if_neg (by decide), if_pos rfl, windowStartOf?,
    Int.mul_ediv_cancel _ (by decide)]

theorem countOf?_windowDoc (w : Window) :
    countOf? ((windowDoc w).read "count") = some (w.count : Int) := by
  rw [windowDoc_eq, Fields.read_set, if_pos rfl]
  rfl

/-- The transaction takes a call from the window that the document keeps; the first window of a user
must open after the first minute of the epoch. -/
theorem run_takeCall (hdoc : cloud.doc (.rateLimits uid) = window.map windowDoc) :
    (takeCall uid now).run cloud =
      match Window.take rateLimit.toNat windowMs now window with
      | none => .error LookupCall.tooMany
      | some w =>
        if window = none ∧ now < windowMs then .error (.notFound (.rateLimits uid))
        else .ok (cloud.store (.rateLimits uid) (some (windowDoc w))) := by
  rw [takeCall, Transaction.run, hdoc]
  cases window with
  | none =>
    have hstart : windowStartOf? (Fields.read ((none : Option Fields).getD []) "windowStart") =
        some 0 := rfl
    have hcount : countOf? (Fields.read ((none : Option Fields).getD []) "count") = some 0 := rfl
    rw [Option.map_none, hstart, hcount, Window.take]
    dsimp only
    rw [Int.sub_zero]
    by_cases helapsed : now ≥ windowMs
    · rw [if_pos helapsed, if_neg (fun hfirst => absurd hfirst.2 (not_lt.mpr helapsed)),
        Transaction.run, Cloud.commit_set, windowDoc]
      rfl
    · rw [if_neg helapsed, if_neg (by decide), if_pos ⟨rfl, not_le.mp helapsed⟩, Transaction.run,
        Cloud.commit, Write.path, hdoc]
      rfl
  | some w =>
    rw [Option.map_some, Option.getD_some, windowStartOf?_windowDoc, countOf?_windowDoc, Window.take]
    have hfull : (w.count : Int) ≥ rateLimit ↔ w.count ≥ rateLimit.toNat := by
      simp only [rateLimit]
      omega
    dsimp only
    by_cases helapsed : now - w.start ≥ windowMs
    · rw [if_pos helapsed, if_pos helapsed]
      simp [Transaction.run, windowDoc]
    · rw [if_neg helapsed, if_neg helapsed]
      by_cases hcount : w.count ≥ rateLimit.toNat
      · rw [if_pos (hfull.mpr hcount), if_pos hcount]
        rfl
      · rw [if_neg (mt hfull.mp hcount), if_neg hcount]
        have hchanged : Write.changed (windowDoc w) [("count", .set (.int ((w.count : Int) + 1)))] =
            windowDoc { w with count := w.count + 1 } := by
          simp [Write.changed, Change.apply, windowDoc_eq]
        simp only [Transaction.run, Cloud.commit, Write.path, hdoc, Option.map_some, Write.result,
          hchanged, reduceCtorEq, false_and, if_false]
        rfl

/-! ### What a call comes to -/

/-- The outcome of a call, and the user's window after it. -/
def respond (emailKey : String → String) (window : Option Window)
    (directory : String → Option Fields) (call : LookupCall) :
    Except CloudFailure (Option Fields) × Option Window :=
  match call.auth, nonEmptyString? (call.data.read "email") with
  | none, _ => (.error (.httpsError "unauthenticated" "Sign in to look up a user."), window)
  | some _, none => (.error (.httpsError "invalid-argument" "An email is required."), window)
  | some token, some email =>
    match Window.take rateLimit.toNat windowMs call.now window with
    | none => (.error LookupCall.tooMany, window)
    | some w =>
      if window = none ∧ call.now < windowMs then
        (.error (.notFound (.rateLimits token.uid)), window)
      else (.ok (lookedUp (directory (emailKey email))), some w)

variable {emailKey : String → String} {directory : String → Option Fields} {s t : Lookups}
  {call : LookupCall}

theorem respond_ok (h : (respond emailKey window directory call).1.isOk = true) :
    ∃ w, (respond emailKey window directory call).2 = some w ∧
      Window.take rateLimit.toNat windowMs call.now window = some w := by
  revert h
  unfold respond
  split
  · nofun
  · nofun
  · split
    · nofun
    · next w htake =>
      split_ifs
      · nofun
      · exact fun _ => ⟨w, rfl, htake⟩

theorem respond_error (h : (respond emailKey window directory call).1.isOk = false) :
    (respond emailKey window directory call).2 = window := by
  revert h
  unfold respond
  split
  · exact fun _ => rfl
  · exact fun _ => rfl
  · split
    · exact fun _ => rfl
    · split_ifs
      · exact fun _ => rfl
      · nofun

theorem respond_tooMany
    (h : (respond emailKey window directory call).1 = .error LookupCall.tooMany) :
    Window.take rateLimit.toNat windowMs call.now window = none := by
  revert h
  unfold respond
  split
  · intro h
    simp [LookupCall.tooMany] at h
  · intro h
    simp [LookupCall.tooMany] at h
  · split
    · next htake => exact fun _ => htake
    · split_ifs
      · intro h
        simp [LookupCall.tooMany] at h
      · nofun

variable (emailKey) in
/-- The program does what `respond` says. -/
theorem exec_lookupEmail
    (hdoc : ∀ token ∈ call.auth, cloud.doc (.rateLimits token.uid) = window.map windowDoc) :
    let response := respond emailKey window (fun key => cloud.doc (.usersByEmail key)) call
    ∃ cloud', (lookupEmail emailKey (enforceRateLimit call.now) call.auth call.data).exec
        Operation.perform cloud = (response.1, cloud') ∧
      (∀ token ∈ call.auth, cloud'.doc (.rateLimits token.uid) = response.2.map windowDoc) ∧
      ∀ path, (∀ token ∈ call.auth, path ≠ .rateLimits token.uid) →
        cloud'.doc path = cloud.doc path := by
  unfold respond
  cases hauth : call.auth with
  | none => exact ⟨cloud, rfl, nofun, fun _ _ => rfl⟩
  | some token =>
    have hdoc := hdoc token hauth
    have hunchanged : ∀ other ∈ some token,
        cloud.doc (.rateLimits other.uid) = window.map windowDoc := by
      intro other hother
      obtain rfl := Option.some.inj hother
      exact hdoc
    cases hemail : nonEmptyString? (call.data.read "email") with
    | none => exact ⟨cloud, by simp [lookupEmail, hemail], hunchanged, fun _ _ => rfl⟩
    | some email =>
      have hexec : (enforceRateLimit call.now token.uid).exec Operation.perform cloud =
          cloud.settle ((takeCall token.uid call.now).run cloud) := exec_transaction _ _
      rw [run_takeCall hdoc] at hexec
      dsimp only
      cases htake : Window.take rateLimit.toNat windowMs call.now window with
      | none =>
        rw [htake] at hexec
        refine ⟨cloud, ?_, hunchanged, fun _ _ => rfl⟩
        simp [lookupEmail, hemail, Program.exec_bind, hexec, Cloud.settle]
      | some w =>
        rw [htake] at hexec
        dsimp only at hexec ⊢
        split_ifs at hexec ⊢ with hfirst
        · refine ⟨cloud, ?_, hunchanged, fun _ _ => rfl⟩
          simp [lookupEmail, hemail, Program.exec_bind, hexec, Cloud.settle]
        · refine ⟨cloud.store (.rateLimits token.uid) (some (windowDoc w)), ?_, ?_, ?_⟩
          · simp [lookupEmail, hemail, Program.exec_bind, hexec, Cloud.settle, Cloud.doc_store]
          · intro other hother
            obtain rfl := Option.some.inj hother
            rw [Cloud.doc_store_self, Option.map_some]
          · exact fun path hpath => Cloud.doc_store_of_ne _ (hpath token rfl) _

theorem clock_le_of_step (hstep : step emailKey s call = some t) : s.clock ≤ call.now := by
  unfold step at hstep
  split_ifs at hstep with hclock
  exact hclock

variable (emailKey) in
/-- What a call that is not too early does. -/
theorem step_eq_some
    (hdoc : ∀ token ∈ call.auth, s.cloud.doc (.rateLimits token.uid) = window.map windowDoc)
    (hclock : s.clock ≤ call.now) :
    let response := respond emailKey window (fun key => s.cloud.doc (.usersByEmail key)) call
    ∃ cloud, step emailKey s call = some ⟨cloud, call.now, s.log ++ [(call, response.1)]⟩ ∧
      (∀ token ∈ call.auth, cloud.doc (.rateLimits token.uid) = response.2.map windowDoc) ∧
      ∀ path, (∀ token ∈ call.auth, path ≠ .rateLimits token.uid) →
        cloud.doc path = s.cloud.doc path := by
  obtain ⟨cloud, hexec, hdocs⟩ := exec_lookupEmail emailKey hdoc
  refine ⟨cloud, ?_, hdocs⟩
  rw [step, if_pos hclock, hexec]

/-! ## Every run -/

/-- The document of a user is a meter for the user's calls. -/
def Metered (uid : String) (s : Lookups) : Prop :=
  ∃ m : Meter, m.admitted = admitted uid s.log ∧
    s.cloud.doc (.rateLimits uid) = m.window.map windowDoc ∧
      m.Inv rateLimit.toNat windowMs s.clock

theorem admitted_append (log : List (LookupCall × Except CloudFailure (Option Fields)))
    (outcome : Except CloudFailure (Option Fields)) : admitted uid (log ++ [(call, outcome)]) =
      admitted uid log ++ if call.isBy uid && outcome.isOk then [call.now] else [] := by
  rw [admitted, List.filter_append, List.map_append]
  cases h : call.isBy uid && outcome.isOk <;> simp [admitted, h]

theorem isBy_iff : call.isBy uid = true ↔ ∃ token ∈ call.auth, uid = token.uid := by
  cases hauth : call.auth with
  | none => simp [LookupCall.isBy, hauth]
  | some token =>
    rw [LookupCall.isBy, hauth, Option.any_some, beq_iff_eq]
    exact ⟨fun h => ⟨token, rfl, h.symm⟩, fun ⟨_, hmem, h⟩ => by
      rw [h, Option.some.inj hmem]⟩

/-- The caller's window, if there is a caller. -/
theorem exists_window (h : ∀ uid, s.Metered uid) (call : LookupCall) : ∃ m : Meter,
    (∀ token ∈ call.auth, s.cloud.doc (.rateLimits token.uid) = m.window.map windowDoc) ∧
      ∀ token ∈ call.auth, m.admitted = admitted token.uid s.log ∧
        m.Inv rateLimit.toNat windowMs s.clock := by
  cases call.auth with
  | none => exact ⟨⟨none, []⟩, nofun, nofun⟩
  | some token =>
    obtain ⟨m, hadmitted, hdoc, hinv⟩ := h token.uid
    refine ⟨m, fun other hother => ?_, fun other hother => ?_⟩
    all_goals obtain rfl := Option.some.inj hother
    · exact hdoc
    · exact ⟨hadmitted, hinv⟩

theorem metered_step (h : ∀ uid, s.Metered uid) (hstep : step emailKey s call = some t) :
    ∀ uid, t.Metered uid := by
  intro uid
  have hclock := clock_le_of_step hstep
  obtain ⟨m, hdoc, hcaller⟩ := exists_window h call
  obtain ⟨cloud, hstep', hown, hothers⟩ := step_eq_some emailKey hdoc hclock
  obtain rfl := Option.some.inj (hstep'.symm.trans hstep)
  generalize hresponse : respond emailKey m.window (fun key => s.cloud.doc (.usersByEmail key)) call =
    response at hown
  by_cases hby : call.isBy uid = true
  · obtain ⟨token, hauth, rfl⟩ := isBy_iff.mp hby
    obtain ⟨hadmitted, hinv⟩ := hcaller token hauth
    cases hok : response.1.isOk with
    | true =>
      obtain ⟨w, hw, htake⟩ := respond_ok (hresponse ▸ hok)
      have hinv' := hinv.take (by decide) (by decide) hclock htake
      refine ⟨⟨some w, m.admitted ++ [call.now]⟩, ?_, ?_, hinv'⟩
      · rw [hadmitted, admitted_append, hby, hok]
        rfl
      · rw [hown token hauth, ← hresponse, hw]
    | false =>
      have hw := respond_error (hresponse ▸ hok)
      refine ⟨m, ?_, ?_, hinv.mono hclock⟩
      · rw [hadmitted, admitted_append, hby, hok]
        exact (List.append_nil _).symm
      · rw [hown token hauth, ← hresponse, hw]
  · obtain ⟨m', hadmitted, hdoc', hinv⟩ := h uid
    refine ⟨m', ?_, ?_, hinv.mono hclock⟩
    · rw [hadmitted, admitted_append, Bool.eq_false_iff.mpr hby]
      exact (List.append_nil _).symm
    · rw [← hdoc']
      refine hothers _ fun token hauth heq => hby (isBy_iff.mpr ⟨token, hauth, ?_⟩)
      exact (DocPath.rateLimits.inj heq)

theorem metered_start {clock : Int} (hnew : ∀ uid, cloud.doc (.rateLimits uid) = none) :
    ∀ uid, (start cloud clock).Metered uid :=
  fun uid => ⟨⟨none, []⟩, rfl, hnew uid, rfl⟩

/-! ### Other users -/

/-- What the user's calls read is the same in two states, and so are the user's calls so far. -/
structure SameFor (uid : String) (s s' : Lookups) : Prop where
  window : s'.cloud.doc (.rateLimits uid) = s.cloud.doc (.rateLimits uid)
  directory : ∀ key, s'.cloud.doc (.usersByEmail key) = s.cloud.doc (.usersByEmail key)
  clock : s'.clock ≤ s.clock
  log : s'.log = s.log.filter fun entry => entry.1.isBy uid

theorem SameFor.other {s' : Lookups} (h : SameFor uid s s') (hmetered : ∀ uid, s.Metered uid)
    (hby : call.isBy uid = false) (hstep : step emailKey s call = some t) : SameFor uid t s' := by
  have hclock := clock_le_of_step hstep
  obtain ⟨m, hdoc, -⟩ := exists_window hmetered call
  obtain ⟨cloud, hstep', -, hothers⟩ := step_eq_some emailKey hdoc hclock
  obtain rfl := Option.some.inj (hstep'.symm.trans hstep)
  refine ⟨?_, fun key => ?_, h.clock.trans hclock, ?_⟩
  · rw [h.window]
    refine (hothers _ fun token hauth heq => ?_).symm
    exact Bool.eq_false_iff.mp hby (isBy_iff.mpr ⟨token, hauth, DocPath.rateLimits.inj heq⟩)
  · rw [h.directory]
    exact (hothers _ fun _ _ heq => by cases heq).symm
  · simp [h.log, hby]

theorem SameFor.own {s' : Lookups} (h : SameFor uid s s') (hmetered : ∀ uid, s.Metered uid)
    (hby : call.isBy uid = true) (hstep : step emailKey s call = some t) :
    ∃ t', step emailKey s' call = some t' ∧ SameFor uid t t' := by
  have hclock := clock_le_of_step hstep
  obtain ⟨m, hdoc, -⟩ := exists_window hmetered call
  obtain ⟨cloud, hstep', hown, hothers⟩ := step_eq_some emailKey hdoc hclock
  obtain rfl := Option.some.inj (hstep'.symm.trans hstep)
  obtain ⟨token, hauth, rfl⟩ := isBy_iff.mp hby
  have hdoc' : ∀ token' ∈ call.auth,
      s'.cloud.doc (.rateLimits token'.uid) = m.window.map windowDoc := by
    intro token' htoken'
    obtain rfl := Option.some.inj (hauth.symm.trans htoken')
    rw [h.window]
    exact hdoc token hauth
  obtain ⟨cloud', hstep'', hown', hothers'⟩ := step_eq_some emailKey hdoc' (h.clock.trans hclock)
  have hdirectory : (fun key => s'.cloud.doc (.usersByEmail key)) =
      fun key => s.cloud.doc (.usersByEmail key) := funext h.directory
  rw [hdirectory] at hstep'' hown'
  refine ⟨_, hstep'', ?_, fun key => ?_, le_rfl, ?_⟩
  · exact (hown' token hauth).trans (hown token hauth).symm
  · have hnotLimit : ∀ token' ∈ call.auth,
        DocPath.usersByEmail key ≠ .rateLimits token'.uid := fun _ _ heq => by cases heq
    exact (hothers' _ hnotLimit).trans ((h.directory key).trans (hothers _ hnotLimit).symm)
  · simp [h.log, hby]

/-- The user's calls alone come to the same. -/
theorem run_own {s' : Lookups} {calls : List LookupCall} (h : SameFor uid s s')
    (hmetered : ∀ uid, s.Metered uid) (hrun : run (step emailKey) s calls = some t) :
    ∃ t', run (step emailKey) s' (calls.filter (·.isBy uid)) = some t' ∧ SameFor uid t t' := by
  induction calls generalizing s s' with
  | nil =>
    obtain rfl := Option.some.inj hrun
    exact ⟨s', rfl, h⟩
  | cons call calls ih =>
    obtain ⟨u, hstep, hrest⟩ := run_cons_eq_some.mp hrun
    have hmetered' := metered_step hmetered hstep
    cases hby : call.isBy uid with
    | false =>
      rw [List.filter_cons_of_neg (by simp [hby])]
      exact ih (h.other hmetered hby hstep) hmetered' hrest
    | true =>
      rw [List.filter_cons_of_pos hby]
      obtain ⟨u', hstep', hsame⟩ := h.own hmetered hby hstep
      obtain ⟨t', hrest', hsame'⟩ := ih hsame hmetered' hrest
      exact ⟨t', run_cons_eq_some.mpr ⟨u', hstep', hrest'⟩, hsame'⟩

/-! ### Refusals -/

/-- Each refused call came after as many calls of its user that have been let through, no longer
than a window before it. -/
def RefusesLate (s : Lookups) : Prop :=
  ∀ earlier call later, s.log = earlier ++ (call, .error LookupCall.tooMany) :: later →
    ∀ token ∈ call.auth, rateLimit.toNat ≤ (admitted token.uid earlier).countP
      fun t => call.now - windowMs < t ∧ t ≤ call.now

theorem refusesLate_step (hmetered : ∀ uid, s.Metered uid) (h : s.RefusesLate)
    (hstep : step emailKey s call = some t) : t.RefusesLate := by
  have hclock := clock_le_of_step hstep
  obtain ⟨m, hdoc, hcaller⟩ := exists_window hmetered call
  obtain ⟨cloud, hstep', -, -⟩ := step_eq_some emailKey hdoc hclock
  obtain rfl := Option.some.inj (hstep'.symm.trans hstep)
  intro earlier refused later hlog token hauth
  obtain ⟨hlast, rfl⟩ | ⟨rest, rfl, hold⟩ := append_singleton_eq_split hlog
  · obtain ⟨rfl, hrefused⟩ := Prod.mk.inj hlast
    obtain rfl := List.append_cancel_right (hlog.trans (by rw [← hlast]))
    obtain ⟨hadmitted, hinv⟩ := hcaller token hauth
    rw [← hadmitted]
    exact hinv.refused hclock (respond_tooMany hrefused.symm)
  · exact h earlier refused rest hold token hauth

end

/-- How many lookups of a user are let through, whatever other users do: in an interval no longer
than a window at most twice the budget, the user's calls come to the same without the others', and a
refused call comes after a whole budget in the window's time before it. -/
theorem lookup_budget (emailKey : String → String) {cloud : Cloud} {clock : Int}
    {calls : List LookupCall} {s : Lookups}
    (hnew : ∀ uid, cloud.doc (.rateLimits uid) = none)
    (h : run (step emailKey) (start cloud clock) calls = some s) (uid : String) :
    (∀ a b, b ≤ a + windowMs →
      (admitted uid s.log).countP (fun t => a ≤ t ∧ t ≤ b) ≤ 2 * rateLimit.toNat) ∧
    (∃ alone, run (step emailKey) (start cloud clock) (calls.filter (·.isBy uid)) = some alone ∧
      alone.log = s.log.filter fun entry => entry.1.isBy uid) ∧
    s.RefusesLate := by
  have hstart : ∀ uid, (start cloud clock).Metered uid := metered_start hnew
  obtain ⟨hmetered, hlate⟩ : (∀ uid, s.Metered uid) ∧ s.RefusesLate := by
    refine run_invariant' (I := fun s => (∀ uid, s.Metered uid) ∧ s.RefusesLate) ?_ ⟨hstart, ?_⟩ h
    · exact fun s call t hs hstep => ⟨metered_step hs.1 hstep, refusesLate_step hs.1 hs.2 hstep⟩
    · intro earlier call later hlog
      cases earlier <;> cases hlog
  refine ⟨fun a b hab => ?_, ?_, ?_⟩
  · obtain ⟨m, hadmitted, -, hinv⟩ := hmetered uid
    rw [← hadmitted]
    exact hinv.le_two_mul hab
  · have hsame : SameFor uid (start cloud clock) (start cloud clock) :=
      ⟨rfl, fun _ => rfl, le_rfl, rfl⟩
    obtain ⟨alone, hrun, hsame⟩ := run_own hsame hstart h
    exact ⟨alone, hrun, hsame.log⟩
  · exact hlate

/-- Calls that fill a window at its end, and the next one at its start. -/
def burst : List LookupCall :=
  let call (now : Int) : LookupCall := ⟨some ⟨"spammer", none, none⟩, [("email", .string "a@b.c")], now⟩
  [call 100000] ++ List.replicate 19 (call 159999) ++ List.replicate 21 (call 160000)

theorem lookup_budget_burst : (∀ uid, Cloud.empty.doc (.rateLimits uid) = none) ∧
    ∃ s, run (step id) (start .empty 0) burst = some s ∧ s.RefusesLate := by
  have hnew : ∀ uid, Cloud.empty.doc (.rateLimits uid) = none := fun _ => rfl
  refine ⟨hnew, ?_⟩
  cases h : run (step id) (start .empty 0) burst with
  | none => exact absurd h (by decide +kernel)
  | some s => exact ⟨s, rfl, (lookup_budget id hnew h "spammer").2.2⟩

/-- The budget is not one for every interval of a window's length: two windows meet in it. -/
theorem not_sliding : ∃ s, run (step id) (start .empty 0) burst = some s ∧
    (160000 : Int) ≤ 159999 + windowMs ∧
    rateLimit.toNat < (admitted "spammer" s.log).countP fun t => 159999 ≤ t ∧ t ≤ 160000 := by
  have h : ((run (step id) (start .empty 0) burst).map fun s =>
      (admitted "spammer" s.log).countP fun t => 159999 ≤ t ∧ t ≤ 160000) = some 39 := by
    decide +kernel
  obtain ⟨s, hrun, hcount⟩ := Option.map_eq_some_iff.mp h
  exact ⟨s, hrun, by decide, by rw [hcount]; decide⟩

end Lookups

end Duet
