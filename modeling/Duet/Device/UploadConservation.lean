import Duet.Device.AudioUploadQueue

/-!
# No upload is lost

Every call on the queue of uploads keeps its invariant, at most one drain runs, and while it runs
the queue only grows.

## Main results

* `Uploads.conserved` — the queue in every state of a run, with kills and without.
-/

namespace Duet

open Lib Async

namespace Uploads

/-- What a drain that waits at a point has still to upload. -/
def left : UploadAwait → List AudioUploadTask
  | .uploadOne task left _ => task :: left
  | _ => []

/-- What a drain that waits at a point has recorded and not written. -/
def progress : UploadAwait → UploadProgress
  | .uploadOne _ _ progress => progress
  | _ => .empty

/-- The drains that run. -/
def drains (s : Uploads) : Nat := s.running.countP fun task => task.call == .drain

/-- What holds in every state; the counts are exact when nothing has been killed. -/
structure Inv (maxAttempts : Int) (exact : Prop) (s : Uploads) : Prop where
  obeys : s.Obeys (UploadSegment maxAttempts)
  queue : QueueInv maxAttempts s.enqueued s.state
  one : s.drains = if s.state.draining then 1 else 0
  idle : s.state.draining = false → DrainInv maxAttempts s.enqueued s.state exact [] .empty
  busy : ∀ task ∈ s.running, task.call = .drain → ∀ point, task.rest.point? = some point →
    DrainInv maxAttempts s.enqueued s.state exact (left point) (progress point)

variable {maxAttempts : Int} {exact : Prop} {s t : Uploads}

theorem Inv.accounts (h : Inv maxAttempts exact s) : Conserved maxAttempts s :=
  ⟨h.queue.distinct, h.queue.ordered, h.queue.kept⟩

theorem Inv.settled (h : Inv maxAttempts exact s) (hexact : exact) : Settled maxAttempts s :=
  fun hidle _ hassetId => settled_of_drainInv h.queue hexact (h.idle hidle) hassetId

theorem inv_fresh (maxAttempts : Int) (exact : Prop) : Inv maxAttempts exact fresh where
  obeys := by simp [Lib.Isolate.Obeys, fresh, Lib.Isolate.start]
  queue := ⟨List.nodup_nil, List.Sublist.slnil, nofun, nofun, nofun⟩
  one := rfl
  idle _ := ⟨nofun, List.nodup_nil, nofun, nofun, nofun, fun _ => nofun, fun _ => nofun⟩
  busy := nofun

/-! ## Steps -/

section

variable {enqueued : List String} {queue queue' : AudioUploadQueue} {tasks : List AudioUploadTask}
  {sofar : UploadProgress} {stop : Stop UploadAwait Empty Unit}

/-- The flag is no part of what holds of a queue. -/
theorem queueInv_draining (h : QueueInv maxAttempts enqueued queue) (draining : Bool) :
    QueueInv maxAttempts enqueued { queue with draining := draining } :=
  ⟨h.fresh, h.ordered, h.kept, h.known, h.counted⟩

theorem drainInv_draining (h : DrainInv maxAttempts enqueued queue exact tasks sofar)
    (draining : Bool) :
    DrainInv maxAttempts enqueued { queue with draining := draining } exact tasks sofar :=
  ⟨h.queued, h.distinct, h.ahead, h.dropped, h.replaced, h.succeeded, h.failed⟩

/-- A drain that goes on keeps the invariants. -/
theorem inv_drains (h : QueueInv maxAttempts enqueued queue)
    (hdrain : DrainInv maxAttempts enqueued queue exact tasks sofar)
    (hdrains : Drains queue tasks sofar stop queue') :
    QueueInv maxAttempts enqueued queue' ∧ queue'.draining = queue.draining ∧
      ∃ point, stop = .waits point ∧
        DrainInv maxAttempts enqueued queue' exact (left point) (progress point) := by
  cases tasks with
  | nil =>
    obtain ⟨rfl, rfl⟩ := hdrains
    exact ⟨queueInv_reconciled hdrain h, rfl, _, rfl, drainInv_reconciled hdrain h⟩
  | cons task rest =>
    obtain ⟨rfl, rfl⟩ := hdrains
    exact ⟨h, rfl, _, rfl, hdrain⟩

end

section

variable {c : UploadCall} {rest : UploadProgram Unit × AudioUploadQueue} {i : Nat}
  {stop : Stop UploadAwait Empty Unit} {point : UploadAwait} {k : Bool → UploadProgram Unit}

theorem drains_settle (hstop : rest.1.stop? = some stop) :
    drains (s.settle c rest) =
      s.drains + if c = .drain ∧ stop.suspended then 1 else 0 := by
  rw [drains, Lib.Isolate.countP_running_settle, drains]
  cases stop with
  | waits point =>
    obtain ⟨-, hended⟩ := point?_of_stop? hstop
    simp [hended, Stop.suspended]
  | ends outcome =>
    obtain ⟨-, hended⟩ := ended?_of_stop? hstop
    simp [hended, Stop.suspended]

theorem drains_erase (h : s.running[i]? = some ⟨c, .await point k⟩) :
    drains { s with running := s.running.eraseIdx i } + (if c = .drain then 1 else 0) =
      s.drains := by
  have hcount := Lib.Isolate.countP_eraseIdx h fun task => task.call == .drain
  simpa [drains] using hcount

theorem drains_called : drains { s with called := s.called ++ [c] } = s.drains := rfl

/-- Where no drain runs. -/
theorem not_drain_of_drains_eq_zero (h : s.drains = 0) :
    ∀ task ∈ s.running, task.call ≠ .drain := by
  intro task htask hcall
  exact List.countP_eq_zero.mp h task htask (by simp [hcall])

/-- A call has been settled: what its segment has made of the queue is all that changes. -/
theorem inv_settle (hobeys : (s.settle c rest).Obeys (UploadSegment maxAttempts))
    (hstop : rest.1.stop? = some stop) (hqueue : QueueInv maxAttempts s.enqueued rest.2)
    (hone : (s.drains + if c = .drain ∧ stop.suspended then 1 else 0) =
      if rest.2.draining then 1 else 0)
    (hidle : rest.2.draining = false →
      DrainInv maxAttempts s.enqueued rest.2 exact [] .empty)
    (hbusy : ∀ task ∈ s.running, task.call = .drain → ∀ point, task.rest.point? = some point →
      DrainInv maxAttempts s.enqueued rest.2 exact (left point) (progress point))
    (hnew : c = .drain → ∀ point, stop = .waits point →
      DrainInv maxAttempts s.enqueued rest.2 exact (left point) (progress point)) :
    Inv maxAttempts exact (s.settle c rest) := by
  have henqueued : enqueued (s.settle c rest) = s.enqueued := by
    rw [enqueued, Lib.Isolate.called_settle, enqueued]
  refine ⟨hobeys, ?_, ?_, ?_, fun task htask hcall point hpoint => ?_⟩
  · rwa [henqueued, Lib.Isolate.state_settle]
  · rw [drains_settle hstop, Lib.Isolate.state_settle, hone]
  · rw [henqueued, Lib.Isolate.state_settle]
    exact hidle
  · rw [henqueued, Lib.Isolate.state_settle]
    obtain hold | rfl := Lib.Isolate.mem_running_settle htask
    · exact hbusy task hold hcall point hpoint
    · refine hnew hcall point ?_
      cases stop with
      | waits point' =>
        have hpoint' := (point?_of_stop? hstop).1
        rw [hpoint] at hpoint'
        rw [Option.some.inj hpoint']
      | ends outcome =>
        have hpoint' := (ended?_of_stop? hstop).1
        rw [hpoint] at hpoint'
        cases hpoint'

/-- A task is enqueued: nothing has been enqueued under its asset. -/
theorem inv_enqueue (hs : Inv maxAttempts exact s) {pieceId assetId localPath : String}
    (hnew : assetId ∉ s.enqueued) (hobeys : (Lib.Isolate.settle { s with
      called := s.called ++ [.enqueue pieceId assetId localPath] }
        (.enqueue pieceId assetId localPath) rest).Obeys (UploadSegment maxAttempts))
    (hstop : rest.1.stop? = some stop)
    (hseg : UploadSegment maxAttempts (.enqueue pieceId assetId localPath) none s.state stop rest.2) :
    Inv maxAttempts exact (Lib.Isolate.settle { s with
      called := s.called ++ [.enqueue pieceId assetId localPath] }
        (.enqueue pieceId assetId localPath) rest) := by
  have hqueued : assetId ∉ s.state.assetIds := fun hin => hnew (hs.queue.ordered.subset hin)
  have henqueued : enqueued { s with called := s.called ++ [.enqueue pieceId assetId localPath] } =
      s.enqueued ++ [assetId] := by
    simp [enqueued, UploadCall.assetId?]
  simp only [UploadSegment, hqueued, if_false] at hseg
  obtain ⟨-, hstate⟩ := hseg
  have hattempts : (⟨pieceId, assetId, localPath, 0⟩ : AudioUploadTask).attempts = 0 := rfl
  refine inv_settle hobeys hstop ?_ ?_ ?_ ?_ (by simp)
  · rw [henqueued, hstate]
    exact queueInv_append hs.queue hnew hattempts
  · rw [hstate, drains_called]
    simpa using hs.one
  · rw [henqueued, hstate]
    exact fun hidle => drainInv_append hs.queue (hs.idle hidle) hnew hattempts
  · rw [henqueued, hstate]
    exact fun task htask hcall point hpoint => drainInv_append hs.queue
      (hs.busy task htask hcall point hpoint) hnew hattempts

/-- A drain is called: it begins when none runs. -/
theorem inv_drain (hs : Inv maxAttempts exact s)
    (hobeys : (Lib.Isolate.settle { s with called := s.called ++ [.drain] } .drain rest).Obeys
      (UploadSegment maxAttempts)) (hstop : rest.1.stop? = some stop)
    (hseg : UploadSegment maxAttempts .drain none s.state stop rest.2) :
    Inv maxAttempts exact
      (Lib.Isolate.settle { s with called := s.called ++ [.drain] } .drain rest) := by
  have henqueued : enqueued { s with called := s.called ++ [.drain] } = s.enqueued := by
    simp [enqueued, UploadCall.assetId?]
  simp only [UploadSegment] at hseg
  split_ifs at hseg with hdraining
  · obtain ⟨rfl, hstate⟩ := hseg
    refine inv_settle hobeys hstop ?_ ?_ ?_ ?_ (by simp) <;> rw [hstate]
    · rw [henqueued]
      exact hs.queue
    · rw [drains_called]
      simpa [Stop.suspended] using hs.one
    · rw [henqueued]
      exact hs.idle
    · rw [henqueued]
      exact hs.busy
  · rw [Bool.not_eq_true] at hdraining
    have hnone : s.drains = 0 := by rw [hs.one, hdraining]; rfl
    have hidle := drainInv_start hs.queue (hs.idle hdraining)
    obtain ⟨hqueue, hflag, point, rfl, hdrain⟩ :=
      inv_drains (queueInv_draining hs.queue true) (drainInv_draining hidle true) hseg
    refine inv_settle hobeys hstop (henqueued ▸ hqueue) ?_ ?_ ?_ ?_
    · rw [drains_called, hnone, hflag]
      simp [Stop.suspended]
    · rw [hflag]
      simp
    · exact fun task htask hcall => absurd hcall (not_drain_of_drains_eq_zero hnone task htask)
    · rintro - point' hpoint'
      obtain rfl := Stop.waits.inj hpoint'
      exact henqueued ▸ hdrain

/-- A drain goes on. -/
theorem inv_resume_drain (hs : Inv maxAttempts exact s)
    (hrunning : s.running[i]? = some ⟨.drain, .await point k⟩)
    (hobeys : (Lib.Isolate.settle { s with running := s.running.eraseIdx i } .drain rest).Obeys
      (UploadSegment maxAttempts)) (hstop : rest.1.stop? = some stop)
    (hseg : UploadSegment maxAttempts .drain (some point) s.state stop rest.2) :
    Inv maxAttempts exact
      (Lib.Isolate.settle { s with running := s.running.eraseIdx i } .drain rest) := by
  have herase := drains_erase hrunning
  have hone := hs.one
  obtain ⟨hdraining, hnone⟩ : s.state.draining = true ∧
      drains { s with running := s.running.eraseIdx i } = 0 := by
    rw [if_pos rfl] at herase
    cases hflag : s.state.draining with
    | true =>
      rw [hflag] at hone
      exact ⟨rfl, by simp only [if_true] at hone; omega⟩
    | false =>
      rw [hflag] at hone
      simp only [Bool.false_eq_true, if_false] at hone
      omega
  have hdrain := hs.busy _ (List.mem_of_getElem? hrunning) rfl point rfl
  have hbusy : ∀ queue : AudioUploadQueue, ∀ task ∈ s.running.eraseIdx i, task.call = .drain →
      ∀ point, task.rest.point? = some point →
        DrainInv maxAttempts s.enqueued queue exact (left point) (progress point) :=
    fun _ task htask hcall => absurd hcall (not_drain_of_drains_eq_zero hnone task htask)
  cases point with
  | uploadOne task tasks sofar =>
    obtain ⟨success, hdrains⟩ := hseg
    obtain ⟨hqueue, hflag, point, rfl, hdrain'⟩ :=
      inv_drains (queueInv_upload hs.queue (hdrain.queued task List.mem_cons_self) success)
        (drainInv_upload hdrain hs.queue success) hdrains
    refine inv_settle hobeys hstop hqueue ?_ ?_ (hbusy _) ?_
    · rw [hnone, hflag, hdraining]
      rfl
    · rw [hflag, hdraining]
      simp
    · rintro - point' hpoint'
      obtain rfl := Stop.waits.inj hpoint'
      exact hdrain'
  | setString =>
    obtain ⟨rfl, hstate⟩ := hseg
    refine inv_settle hobeys hstop ?_ ?_ ?_ (hbusy _) ?_ <;> rw [hstate]
    · exact hs.queue
    · rw [hnone, hdraining]
      rfl
    · rw [hdraining]
      simp
    · rintro - point' hpoint'
      obtain rfl := Stop.waits.inj hpoint'
      exact hdrain
  | save =>
    obtain ⟨rfl, hstate⟩ := hseg
    refine inv_settle hobeys hstop ?_ ?_ ?_ (hbusy _) (by simp) <;> rw [hstate]
    · exact queueInv_draining hs.queue false
    · rw [hnone]
      rfl
    · exact fun _ => drainInv_draining hdrain false

/-- A call that enqueues goes on: its task is queued already. -/
theorem inv_resume_enqueue (hs : Inv maxAttempts exact s) {pieceId assetId localPath : String}
    (hrunning : s.running[i]? = some ⟨.enqueue pieceId assetId localPath, .await point k⟩)
    (hobeys : (Lib.Isolate.settle { s with running := s.running.eraseIdx i }
      (.enqueue pieceId assetId localPath) rest).Obeys (UploadSegment maxAttempts))
    (hstop : rest.1.stop? = some stop)
    (hseg : UploadSegment maxAttempts (.enqueue pieceId assetId localPath) (some point) s.state stop
      rest.2) :
    Inv maxAttempts exact (Lib.Isolate.settle { s with running := s.running.eraseIdx i }
      (.enqueue pieceId assetId localPath) rest) := by
  have herase := drains_erase hrunning
  have hstate : rest.2 = s.state := by
    cases point with
    | uploadOne => exact hseg.elim
    | _ => exact hseg.2
  refine inv_settle hobeys hstop ?_ ?_ ?_ ?_ (by simp) <;> rw [hstate]
  · exact hs.queue
  · have hone := hs.one
    simp only [reduceCtorEq, false_and, if_false] at herase ⊢
    omega
  · exact hs.idle
  · exact fun task htask => hs.busy task (List.mem_of_mem_eraseIdx htask)

end

theorem inv_step {event : UploadEvent} (hs : Inv maxAttempts exact s) (hfresh : FreshAssets s event)
    (hkill : exact → event ≠ .kill) (hstep : s.step maxAttempts event = some t) :
    Inv maxAttempts exact t := by
  obtain ⟨hobeys, hsegment⟩ := Lib.Isolate.obeys_step follows_upload hs.obeys hstep
  cases event with
  | call c =>
    obtain ⟨rest, stop, hstop, hseg, rfl⟩ := hsegment
    cases c with
    | enqueue pieceId assetId localPath => exact inv_enqueue hs (hfresh _ rfl) hobeys hstop hseg
    | drain => exact inv_drain hs hobeys hstop hseg
  | resume i input =>
    obtain ⟨c, point, k, rest, stop, hrunning, hstop, hseg, rfl⟩ := hsegment
    cases c with
    | enqueue pieceId assetId localPath => exact inv_resume_enqueue hs hrunning hobeys hstop hseg
    | drain => exact inv_resume_drain hs hrunning hobeys hstop hseg
  | kill =>
    obtain rfl := hsegment
    have hnot : ¬exact := fun hexact => hkill hexact rfl
    exact ⟨hobeys, queueInv_draining hs.queue false, rfl, fun _ => ⟨nofun, List.nodup_nil, nofun,
      nofun, nofun, fun hexact => absurd hexact hnot, fun hexact => absurd hexact hnot⟩, nofun⟩

/-- In every state the queue holds different assets in their order, and no asset is lost; in a run
without kills it holds, whenever no drain runs, what has neither been uploaded nor given up. -/
theorem conserved (maxAttempts : Int) {events : List UploadEvent}
    (hfresh : EachStep (step maxAttempts) FreshAssets fresh events) :
    Always (step maxAttempts) (Conserved maxAttempts) fresh events ∧
      (.kill ∉ events → Always (step maxAttempts) (Settled maxAttempts) fresh events) := by
  constructor
  · exact Always.of_invariant (I := Inv maxAttempts False)
      (fun s e t hs hnew hstep => inv_step hs hnew nofun hstep) (fun s hs => hs.accounts)
      (inv_fresh maxAttempts False) hfresh
  · intro hkill
    have halive : EachStep (step maxAttempts) (fun _ e => e ≠ .kill) fresh events :=
      EachStep.of_forall fun e he _ heq => hkill (heq ▸ he)
    exact Always.of_invariant (I := Inv maxAttempts True)
      (fun s e t hs hcond hstep => inv_step hs hcond.1 (fun _ => hcond.2) hstep)
      (fun s hs => hs.settled trivial) (inv_fresh maxAttempts True) (hfresh.and halive)

/-- Two recordings are enqueued; the first one is uploaded, and the second one fails. -/
def twoRecordings : List UploadEvent :=
  .call (.enqueue "p" "first" "first.m4a") :: .call (.enqueue "p" "second" "second.m4a") ::
    List.replicate 4 (.resume 0 true) ++ .call .drain :: .resume 0 true :: .resume 0 false ::
      List.replicate 2 (.resume 0 true)

theorem conserved_twoRecordings : ∃ s, run (step 5) fresh twoRecordings = some s ∧
    s.state.tasks = [⟨"p", "second", "second.m4a", 1⟩] ∧ Conserved 5 s ∧ Settled 5 s := by
  have hfresh : EachStep (step 5) FreshAssets fresh twoRecordings := by decide +kernel
  have hrun : (run (step 5) fresh twoRecordings).map (·.state.tasks) =
      some [⟨"p", "second", "second.m4a", 1⟩] := by decide +kernel
  obtain ⟨s, hs, htasks⟩ := Option.map_eq_some_iff.mp hrun
  obtain ⟨hconserved, hsettled⟩ := conserved 5 hfresh
  exact ⟨s, hs, htasks, hconserved.last hs, (hsettled (by decide)).last hs⟩

end Uploads

end Duet
