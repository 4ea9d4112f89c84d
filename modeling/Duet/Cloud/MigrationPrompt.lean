import Duet.Cloud.MigrationPdfs

/-!
# `MigrationPrompt`

The check that offers the migration to a user who signs in, and starts it when the user accepts.
The user is asked once: the done flag is set at the answer, before the pass, whatever becomes of
it.

## Main results

* `Prompt.reoffers_iff` — failed migrations are offered again exactly when no check ends with a
  pass that has left pieces behind.
* `Prompt.not_reoffers` — a pass that fails, and is not offered again.
-/

namespace Duet

open Lib Program LocalPieceMigrator

/-- `_maybePrompt`; the result is the one that `_showResult` shows. -/
def maybePrompt (platform : Platform) (uid : String) : ClientProgram (Option MigrationResult) := do
  if uid = "" then done none
  else do
    let isDone : Bool ← ask (.readDone uid)
    if isDone then done none
    else do
      let pending ← pendingCount uid
      if pending = 0 then do
        ask (.writeDone uid true)
        done none
      else do
        let accepted : Bool ← ask (.confirm pending)
        -- prompted once, whatever the answer
        ask (.writeDone uid true)
        if !accepted then done none
        else do
          let result ← migrate uid platform
          done (some result)

/-- A client, and what its user has answered so far. -/
structure Prompted where
  client : Client
  answers : List Bool

namespace Prompted

/-- What an operation does; an answer is added to the history. -/
def perform (platform : Platform) (given : Given) (o : ClientOperation) (s : Prompted) :
    Except CloudFailure o.Response × Prompted :=
  let (response, client) := o.perform platform given s.client
  (response, ⟨client, match o with
    | .confirm _ => s.answers ++ [given.answer]
    | _ => s.answers⟩)

def restart (s : Prompted) : Prompted := { s with client := s.client.restart }

/-- The user has accepted, and has not declined since. -/
def Accepted (s : Prompted) : Prop := s.answers.getLast? = some true

/-- Every piece of the device is recorded as migrated. -/
def AllRecorded (uid : String) (s : Prompted) : Prop :=
  ∀ piece ∈ s.client.device.pieces, piece.id ∈ s.client.migratedIds uid

/-- A check that meets no fault asks the user. -/
def Offers (platform : Platform) (uid : String) (s : Prompted) : Prop := ∀ given,
  ¬(maybePrompt platform uid).EachCall (ClientOperation.interpret platform given)
    (fun o _ => ∀ pending, o ≠ .confirm pending) s.client

end Prompted

/-- A client on which checks run, one at a time. -/
abbrev Prompt :=
  Process Prompted ClientOperation ClientOperation.Response CloudFailure (Option MigrationResult)

namespace Prompt

/-- One event: a check begins, its next operation meets its fate, or the app is killed. -/
def step (platform : Platform) (uid : String) (m : Prompt) : MigrationEvent → Option Prompt :=
  Process.step (Prompted.perform platform) Prompted.restart (maybePrompt platform uid) m

/-- A device with a signed-in user who has not been asked anything yet. -/
def start (client : Client) : Prompt := .idle ⟨client, []⟩

/-- Between two checks: an accepted migration that has left pieces behind is offered again. -/
def Reoffers (platform : Platform) (uid : String) (m : Prompt) : Prop :=
  m.running = none → m.state.Accepted → ¬m.state.AllRecorded uid → m.state.Offers platform uid

/-- The check has ended in order: without a pass, or with one in which no piece failed. -/
def EndedWell (m : Prompt) : Prop :=
  m.outcome = some (.ok none) ∨ ∃ result, m.outcome = some (.ok (some result)) ∧ result.failed = 0

/-- No check that has recorded an accept in the done flag is killed, fails or ends with failed
pieces, unless no piece is left behind. -/
def Completes (platform : Platform) (uid : String) (m : Prompt) (event : MigrationEvent) : Prop :=
  ∀ t, m.step platform uid event = some t → t.running = none → t.state.Accepted →
    t.state.client.isDone uid = true → ¬t.EndedWell → t.state.AllRecorded uid

end Prompt

/-! ## What a check does -/

section

variable {platform : Platform} {uid : String} {s : Prompted}

/-- A check that finds the flag set asks nothing. -/
theorem not_offers_of_isDone (h : s.client.isDone uid = true) : ¬s.Offers platform uid := by
  intro hoffers
  refine hoffers ⟨noon, "", true⟩ ?_
  rw [maybePrompt]
  split_ifs with huid
  · trivial
  refine Fallible.eachCall_ask_bind.mpr ⟨fun _ => by simp, fun isDone t hread => ?_⟩
  obtain rfl : true = isDone := (h.symm.trans (Except.ok.inj (Prod.mk.inj hread).1))
  trivial

/-- A check asks as long as the flag is not set and a piece is left. -/
theorem offers_of_not_isDone (huid : uid ≠ "") (h : s.client.isDone uid = false)
    (hleft : ¬s.AllRecorded uid) : s.Offers platform uid := by
  intro given hcalls
  rw [maybePrompt, if_neg huid] at hcalls
  have hrest := (Fallible.eachCall_ask_bind.mp hcalls).2 (s.client.isDone uid) s.client rfl
  rw [h, if_neg (by simp)] at hrest
  have hpending := (eachCall_bind.mp hrest).2 _ _ (exec_pendingCount given s.client)
  rw [if_neg (mt countP_eq_zero_iff.mp hleft)] at hpending
  exact (Fallible.eachCall_ask_bind.mp hpending).1 _ rfl

/-! ## What a check keeps -/

/-- Whatever happens to an operation. -/
abbrev AnyFate (_ : Given) (_ : Fate CloudFailure) (_ : ClientOperation) (_ : Prompted) : Prop :=
  True

/-- The pieces of the device are those, and the ids are recorded. -/
def Records (uid : String) (pieces : List Piece) (ids : List String) (client : Client) : Prop :=
  client.device.pieces = pieces ∧ ids ⊆ client.migratedIds uid

/-- What a check's operation may respond and leave. -/
abbrev CheckNext (platform : Platform) :=
  Faulty (Prompted.perform platform) AnyFate

variable {pieces : List Piece} {ids : List String}

/-- What migrates one piece records nothing. -/
theorem records_next {o : ClientOperation} {r : Except CloudFailure o.Response} {t : Prompted}
    {piece : Piece} (hissued : StagedOrIssued uid piece o) (hs : Records uid pieces ids s.client)
    (hnext : CheckNext platform o s r t) :
    Responds pieces o r ∧ Records uid pieces ids t.client := by
  constructor
  · obtain ⟨given, fate, -, happly⟩ := hnext
    have hresponds := responds_apply hs.1 platform given fate o
    obtain ⟨rfl, -⟩ := Prod.mk.inj happly
    cases fate <;> exact hresponds
  · refine hnext.keeps (I := fun t => Records uid pieces ids t.client) hs fun given _ _ => ?_
    have hmigrated : (o.perform platform given s.client).2.migrated = s.client.migrated := by
      apply Migration.migrated_perform
      rintro uid' ids' rfl
      obtain hissued | ⟨_, _, hcopy⟩ := hissued
      · exact hissued
      · cases hcopy
    refine ⟨(Migration.pieces_perform o).trans hs.1, ?_⟩
    have hids := hs.2
    rw [Client.migratedIds, ← hmigrated] at hids
    exact hids

/-- A pass in which no piece fails leaves no piece behind. -/
theorem always_migrate (hs : s.client.device.pieces = pieces) :
    (migrate uid platform).Always (CheckNext platform) (fun t => t.client.device.pieces = pieces)
      (fun outcome t => ∀ r, outcome = .ok r → r.failed = 0 → t.AllRecorded uid) s := by
  have hnil : ∀ t : Prompted, Records uid pieces [] t.client ↔ t.client.device.pieces = pieces :=
    fun t => and_iff_left (List.nil_subset _)
  refine .bind (.ask_read hs (fun _ => rfl) ?_ fun e r hr => by cases hr)
  refine .bind (.ask_read hs (fun _ => rfl) ?_ fun e r hr => by cases hr)
  refine Always.mono (upholds_migrateEach (fun ids t => Records uid pieces ids t.client)
    (fun _ _ => True) True ?_ (s.client.migratedIds uid) ?_ ?_ (fun piece hpiece => hs ▸ hpiece)
    ⟨0, 0⟩ (s.client.migratedIds uid) ⟨hs, List.Subset.refl _⟩) (fun t => (hnil t).mp) ?_
  · intro ids t h
    exact ⟨h.1, List.nil_subset _⟩
  · intro piece hpiece _ ids t ht
    refine (stages_migrateOne.always (I := fun t => Records uid pieces ids t.client)
      (fun o t r u ho ht hnext => records_next ho ht hnext) ht).mono ?_ ?_
    · intro t h
      exact ⟨h.1, List.nil_subset _⟩
    · intro outcome t h
      refine ⟨⟨h.1, List.nil_subset _⟩, ?_⟩
      cases outcome <;> exact ⟨h, trivial⟩
  · intro piece _ ids t ht _
    refine (upholds_markMigrated Prompted.client (fun _ _ _ => rfl) (fun _ _ _ _ _ _ => trivial)
      (Records uid pieces ids) (Records uid pieces (piece.id :: ids)) ?_ ht ?_).mono ?_
      (fun _ t _ h => h) fun _ _ h => h
    · intro client h
      exact ⟨h.1, List.Subset.trans (List.subset_cons_self _ _) h.2⟩
    · refine ⟨ht.1, fun id hid => mem_migratedIds_recorded.mpr ?_⟩
      obtain rfl | hid := List.mem_cons.mp hid
      · exact .inl rfl
      · exact .inr (ht.2 hid)
    · intro t h
      exact ⟨h.1, List.nil_subset _⟩
  · rintro outcome t ⟨-, hends⟩ r rfl hfailed
    obtain ⟨ids', hids', hsub, hmem⟩ := hends.2.2 hfailed
    intro piece hpiece
    rw [hids'.1, ← hs] at hpiece
    have hin := List.mem_append.mp (hmem piece hpiece)
    exact hids'.2 (hin.elim (fun h => hsub h) id)

/-- How a check ends in order: if without a pass, an accept that the flag has recorded was one
after which no piece was left. -/
def CheckEnds (uid : String) : Except CloudFailure (Option MigrationResult) → Prompted → Prop
  | .ok none, t => t.Accepted → t.client.isDone uid = true → t.AllRecorded uid
  | .ok (some result), t => result.failed = 0 → t.AllRecorded uid
  | .error _, _ => True

theorem always_maybePrompt (hs : s.client.device.pieces = pieces)
    (hdone : s.Accepted → s.client.isDone uid = true → s.AllRecorded uid) :
    (maybePrompt platform uid).Always (CheckNext platform)
      (fun t => t.client.device.pieces = pieces) (CheckEnds uid) s := by
  rw [maybePrompt]
  split_ifs with huid
  · exact hdone
  refine .bind (.ask_read hs (fun _ => rfl) ?_ fun _ => trivial)
  cases hflag : s.client.isDone uid with
  | true => exact hdone
  | false =>
    refine .bind (.bind (.ask_read hs (fun _ => rfl) (.bind ?_) fun _ => trivial))
    refine .ask_read hs (fun _ => rfl) ?_ fun _ => trivial
    change Program.Always _ _ (ite _ _ _) _ _
    split_ifs with hzero
    · -- nothing is left to offer
      refine .bind (.ask_faulty hs (fun _ _ _ => trivial) fun given _ _ => ⟨hs, ?_⟩)
      intro _ _
      exact countP_eq_zero_iff.mp hzero
    refine .bind (.ask_faulty hs (fun _ _ _ => trivial) fun given _ _ => ⟨hs, ?_⟩)
    refine .bind (.ask_faulty hs (fun _ _ _ => trivial) fun given' _ _ => ⟨hs, ?_⟩)
    cases hanswer : given.answer with
    | false =>
      intro haccepted
      simp [Prompted.Accepted, Prompted.perform, hanswer] at haccepted
    | true =>
      refine .bind (.mono (always_migrate ?_) (fun _ h => h) fun outcome t hend => ?_)
      · exact hs
      cases outcome with
      | error e => trivial
      | ok result => exact hend result rfl

end

/-! ## Runs -/

namespace Prompt

variable {platform : Platform} {uid : String} {m t : Prompt} {event : MigrationEvent}

/-- An accept is offered again unless the flag has recorded it, and then no piece may be left. -/
theorem reoffers_iff_flag (huid : uid ≠ "") : m.Reoffers platform uid ↔
    (m.running = none → m.state.Accepted → m.state.client.isDone uid = true →
      m.state.AllRecorded uid) := by
  constructor
  · intro h hidle haccepted hdone
    by_contra hleft
    exact not_offers_of_isDone hdone (h hidle haccepted hleft)
  · intro h hidle haccepted hleft
    refine offers_of_not_isDone huid ?_ hleft
    by_contra hdone
    exact hleft (h hidle haccepted (by simpa using hdone))

/-- What every step of a run keeps. -/
abbrev Checks (platform : Platform) (uid : String) (pieces : List Piece) (m : Prompt) : Prop :=
  Process.Keeps (CheckNext platform) (fun t => t.client.device.pieces = pieces) (CheckEnds uid) m

theorem checks_step {pieces : List Piece} (huid : uid ≠ "") (h : m.Checks platform uid pieces)
    (hreoffers : m.Reoffers platform uid) (hstep : m.step platform uid event = some t) :
    t.Checks platform uid pieces := by
  refine Process.keeps_step (fun hidle => ?_) ?_ h ?_ hstep
  · exact always_maybePrompt h.state ((reoffers_iff_flag huid).mp hreoffers hidle)
  · intro s hs
    exact hs
  · cases event with
    | advance given fate => exact fun _ _ => trivial
    | _ => trivial

theorem reoffers_step {pieces : List Piece} (huid : uid ≠ "") (h : m.Checks platform uid pieces)
    (hreoffers : m.Reoffers platform uid) (hstep : m.step platform uid event = some t) :
    t.Reoffers platform uid ↔ m.Completes platform uid event := by
  have ht := checks_step huid h hreoffers hstep
  have hcompletes : m.Completes platform uid event ↔ (t.running = none → t.state.Accepted →
      t.state.client.isDone uid = true → ¬t.EndedWell → t.state.AllRecorded uid) := by
    simp [Completes, hstep]
  rw [reoffers_iff_flag huid, hcompletes]
  refine ⟨fun h hidle haccepted hdone _ => h hidle haccepted hdone, fun h hidle haccepted hdone => ?_⟩
  by_cases hended : t.EndedWell
  · obtain hnone | ⟨result, hresult, hfailed⟩ := hended
    · exact ht.outcome _ hnone haccepted hdone
    · exact ht.outcome _ hresult hfailed
  · exact h hidle haccepted hdone hended

/-- In a run, an accepted migration that has left pieces behind is always offered again exactly when
no check that has recorded the accept ends otherwise than in order, unless no piece is left. -/
theorem reoffers_iff (huid : uid ≠ "") (client : Client) (events : List MigrationEvent) :
    Always (Prompt.step platform uid) (Reoffers platform uid) (start client) events ↔
      EachStep (Prompt.step platform uid) (Completes platform uid) (start client) events := by
  refine always_iff_eachStep (I := Checks platform uid client.device.pieces)
    (fun m event t h hp => checks_step huid h hp) (fun m event t h hp => reoffers_step huid h hp)
    ?_ (Process.keeps_idle rfl) ?_
  · intro m event hnone t hstep
    rw [hnone] at hstep
    cases hstep
  · intro _ haccepted
    simp [start, Process.idle, Prompted.Accepted] at haccepted

/-! ## A pass that fails and is not offered again -/

/-- Ann is asked and accepts; the flag is set. -/
def untilAccepted : List MigrationEvent :=
  .begin :: List.replicate 5 (.advance ⟨noon, "", true⟩ .performed)

/-- The app is killed before the pass has migrated anything. -/
def killed : List MigrationEvent := untilAccepted ++ [.kill]

theorem reoffers_iff_killed :
    Always (Prompt.step Migration.checksumming "ann") (Reoffers Migration.checksumming "ann")
        (start Migration.oneEtude) killed ↔
      EachStep (Prompt.step Migration.checksumming "ann") (Completes Migration.checksumming "ann")
        (start Migration.oneEtude) killed :=
  reoffers_iff (by decide) Migration.oneEtude killed

/-- Ann has accepted and her piece has not been uploaded, but the next check asks nothing. -/
theorem not_reoffers : ¬∀ platform uid client events, uid ≠ "" →
    Always (Prompt.step platform uid) (Reoffers platform uid) (start client) events := by
  intro hall
  have hrun : (run (Prompt.step Migration.checksumming "ann") (start Migration.oneEtude) killed).any
      (fun m => m.running.isNone && m.state.answers.getLast? == some true &&
        m.state.client.isDone "ann" && (m.state.client.migratedIds "ann").isEmpty &&
        m.state.client.device.pieces.any fun piece => piece.id == "etude") = true := by
    decide +kernel
  obtain ⟨m, hrun, hm⟩ := (Option.any_eq_true _ _).mp hrun
  simp only [Bool.and_eq_true, Option.isNone_iff_eq_none, beq_iff_eq, List.isEmpty_iff,
    List.any_eq_true] at hm
  obtain ⟨⟨⟨⟨hidle, haccepted⟩, hdone⟩, hrecorded⟩, piece, hpiece, -⟩ := hm
  have hoffers := (hall _ _ Migration.oneEtude killed (by decide)).last hrun hidle haccepted fun h => by
    have hid := h piece hpiece
    rw [hrecorded] at hid
    cases hid
  exact not_offers_of_isDone hdone hoffers

end Prompt

end Duet
