import Duet.Lib.Assoc
import Duet.Lib.Async
import Mathlib.Data.List.Nodup

/-!
# The queue of audio uploads

`AudioUploadQueue` as one isolate runs it: `enqueue` appends to the persisted queue, `drain` uploads
a snapshot of it, one task after the other, and reconciles what came of it with the queue as it is
then. A preference is written in memory before its `setString` is awaited, and killing the process
loses everything but the persisted queue.

## Main definitions

* `AudioUploadQueue.enqueue`, `AudioUploadQueue.drain` — the members of the queue.
* `Uploads.step` — the calls on one queue, run up to their awaits, and kills.
* `QueueInv`, `DrainInv` — what links the queue with the assets that have been enqueued, the uploads
  that have returned and the progress of a drain.
-/

namespace Duet

open Lib Async

/-- One pending upload: the file at `localPath` is to become the asset of the piece. -/
structure AudioUploadTask where
  pieceId : String
  assetId : String
  localPath : String
  attempts : Nat
  deriving DecidableEq, Repr

/-- A copy with one more attempt. -/
def AudioUploadTask.retried (task : AudioUploadTask) : AudioUploadTask :=
  { task with attempts := task.attempts + 1 }

/-- `audio.upload_queue`, the flag of the process, and what every upload has returned so far:
whether it succeeded. -/
structure AudioUploadQueue where
  tasks : List AudioUploadTask
  draining : Bool
  uploads : List (String × Bool)
  deriving DecidableEq, Repr

/-- The tasks that are retried, and the ids of those that are dropped. -/
structure UploadProgress where
  replacements : Assoc String AudioUploadTask
  dropped : List String
  deriving DecidableEq, Repr

/-- What a call awaits; a drain holds what it has still to upload, and its progress. -/
inductive UploadAwait where
  | setString
  | save
  | uploadOne (task : AudioUploadTask) (left : List AudioUploadTask) (progress : UploadProgress)
  deriving DecidableEq, Repr

/-- A member of the queue; an upload comes back with whether it succeeded. -/
abbrev UploadProgram (α : Type) := Async UploadAwait Bool AudioUploadQueue Empty α

namespace UploadProgress

def empty : UploadProgress := ⟨[], []⟩

/-- The progress once the task has been uploaded, or not: it is given up after `maxAttempts`. -/
def record (maxAttempts : Int) (task : AudioUploadTask) (success : Bool)
    (progress : UploadProgress) : UploadProgress :=
  if success then { progress with dropped := progress.dropped ++ [task.assetId] }
  else if task.retried.attempts < maxAttempts then
    { progress with replacements := progress.replacements.set task.assetId task.retried }
  else { progress with dropped := progress.dropped ++ [task.assetId] }

/-- The tasks without the dropped ones, and the retried ones in their places. -/
def reconciled (progress : UploadProgress) (tasks : List AudioUploadTask) : List AudioUploadTask :=
  (tasks.filter fun task => task.assetId ∉ progress.dropped).map fun task =>
    (progress.replacements.get task.assetId).getD task

end UploadProgress

namespace AudioUploadQueue

/-- `_save`. -/
def save (tasks : List AudioUploadTask) : UploadProgram Unit := do
  modify fun queue => { queue with tasks := tasks }
  let _ ← suspend .setString
  done ()

/-- A no-op when the asset is queued. -/
def enqueue (task : AudioUploadTask) : UploadProgram Unit := do
  let queue ← get
  if queue.tasks.any fun t => t.assetId == task.assetId then done ()
  else do
    save (queue.tasks ++ [task])
    let _ ← suspend .save
    done ()

/-- The loop of `drain`. -/
def uploadAll (maxAttempts : Int) : List AudioUploadTask → UploadProgress →
    UploadProgram UploadProgress
  | [], progress => done progress
  | task :: left, progress => do
    let success ← suspend (.uploadOne task left progress)
    modify fun queue => { queue with uploads := queue.uploads ++ [(task.assetId, success)] }
    uploadAll maxAttempts left (progress.record maxAttempts task success)

/-- The queue is loaded once before the uploads, and once more after them. -/
def drain (maxAttempts : Int) : UploadProgram Unit := do
  let queue ← get
  if queue.draining then done ()
  else do
    modify fun queue => { queue with draining := true }
    let progress ← uploadAll maxAttempts queue.tasks .empty
    let current ← get
    save (progress.reconciled current.tasks)
    let _ ← suspend .save
    modify fun queue => { queue with draining := false }

end AudioUploadQueue

/-- A call on the queue; a task is enqueued without attempts. -/
inductive UploadCall where
  | enqueue (pieceId assetId localPath : String)
  | drain
  deriving DecidableEq, Repr

namespace UploadCall

def program (maxAttempts : Int) : UploadCall → UploadProgram Unit
  | enqueue pieceId assetId localPath =>
    AudioUploadQueue.enqueue ⟨pieceId, assetId, localPath, 0⟩
  | drain => AudioUploadQueue.drain maxAttempts

/-- The asset that the call enqueues. -/
def assetId? : UploadCall → Option String
  | enqueue _ assetId _ => some assetId
  | drain => none

end UploadCall

/-- The calls on one queue. -/
abbrev Uploads := Isolate UploadCall UploadAwait Bool AudioUploadQueue Empty Unit

abbrev UploadEvent := IsolateEvent UploadCall Bool

namespace Uploads

/-- One event; a killed process comes back with the persisted queue. -/
def step (maxAttempts : Int) (s : Uploads) : UploadEvent → Option Uploads :=
  Isolate.step (UploadCall.program maxAttempts) (fun queue => { queue with draining := false }) s

/-- Nothing has been enqueued. -/
def fresh : Uploads := Isolate.start ⟨[], false, []⟩

/-- The assets that have been enqueued, in their order. -/
def enqueued (s : Uploads) : List String := s.called.filterMap (·.assetId?)

/-- The assets that are enqueued are new. -/
def FreshAssets (s : Uploads) : UploadEvent → Prop
  | .call c => ∀ assetId ∈ c.assetId?, assetId ∉ s.enqueued
  | _ => True

instance (s : Uploads) (e : UploadEvent) : Decidable (FreshAssets s e) := by
  cases e <;> unfold FreshAssets <;> infer_instance

end Uploads

namespace AudioUploadQueue

/-- The assets in the queue. -/
def assetIds (queue : AudioUploadQueue) : List String := queue.tasks.map (·.assetId)

/-- Some upload of the asset succeeded. -/
def Succeeded (queue : AudioUploadQueue) (assetId : String) : Prop := (assetId, true) ∈ queue.uploads

/-- The number of uploads of the asset that failed. -/
def failures (queue : AudioUploadQueue) (assetId : String) : Nat := queue.uploads.count (assetId, false)

end AudioUploadQueue

namespace Uploads

/-- The queue holds different assets in the order in which they were enqueued, and every enqueued
asset is in it, has been uploaded, or has failed often enough. -/
structure Conserved (maxAttempts : Int) (s : Uploads) : Prop where
  distinct : s.state.assetIds.Nodup
  ordered : s.state.assetIds.Sublist s.enqueued
  kept : ∀ assetId ∈ s.enqueued, assetId ∈ s.state.assetIds ∨ s.state.Succeeded assetId ∨
    maxAttempts ≤ s.state.failures assetId

/-- When no drain runs, an asset that has been uploaded is out of the queue, and one that has failed
less often than `maxAttempts` is in it with its number of failures. -/
def Settled (maxAttempts : Int) (s : Uploads) : Prop :=
  s.state.draining = false → ∀ assetId ∈ s.enqueued,
    (s.state.Succeeded assetId → assetId ∉ s.state.assetIds) ∧
      (¬s.state.Succeeded assetId → s.state.failures assetId < maxAttempts →
        ∃ task ∈ s.state.tasks, task.assetId = assetId ∧
          task.attempts = s.state.failures assetId)

end Uploads

/-! ## Segments -/

/-- A drain goes on: it stops at the next upload, or once it has written what is reconciled. -/
def Drains (queue : AudioUploadQueue) (left : List AudioUploadTask) (progress : UploadProgress)
    (stop : Stop UploadAwait Empty Unit) (t : AudioUploadQueue) : Prop :=
  match left with
  | [] => stop = .waits .setString ∧ t = { queue with tasks := progress.reconciled queue.tasks }
  | task :: left => stop = .waits (.uploadOne task left progress) ∧ t = queue

/-- What a call does in the segment from a point. -/
def UploadSegment (maxAttempts : Int) (call : UploadCall) (from? : Option UploadAwait)
    (s : AudioUploadQueue) (stop : Stop UploadAwait Empty Unit) (t : AudioUploadQueue) : Prop :=
  match call, from? with
  | .enqueue pieceId assetId localPath, none =>
    if assetId ∈ s.assetIds then stop = .ends (.ok ()) ∧ t = s
    else stop = .waits .setString ∧
      t = { s with tasks := s.tasks ++ [⟨pieceId, assetId, localPath, 0⟩] }
  | .drain, none =>
    if s.draining then stop = .ends (.ok ()) ∧ t = s
    else Drains { s with draining := true } s.tasks .empty stop t
  | .drain, some (.uploadOne task left progress) => ∃ success,
    Drains { s with uploads := s.uploads ++ [(task.assetId, success)] } left
      (progress.record maxAttempts task success) stop t
  | _, some .setString => stop = .waits .save ∧ t = s
  | .enqueue _ _ _, some .save => stop = .ends (.ok ()) ∧ t = s
  | .drain, some .save => stop = .ends (.ok ()) ∧ t = { s with draining := false }
  | .enqueue _ _ _, some (.uploadOne _ _ _) => False

section

variable {maxAttempts : Int} {s s₀ : AudioUploadQueue} {from? : Option UploadAwait}

theorem follows_save {tasks : List AudioUploadTask}
    {seg : Option UploadAwait → AudioUploadQueue → Stop UploadAwait Empty Unit →
      AudioUploadQueue → Prop} :
    (AudioUploadQueue.save tasks).Follows seg from? s₀ s ↔
      seg from? s₀ (.waits .setString) { s with tasks := tasks } ∧
        ∀ t, seg (some .setString) t (.ends (.ok ())) t :=
  and_congr .rfl (forall_congr' fun _ => forall_const _)

/-- The rest of a drain, from its loop on. -/
theorem follows_uploadAll {left : List AudioUploadTask} {progress : UploadProgress}
    (hdrains : ∀ stop t, Drains s left progress stop t →
      UploadSegment maxAttempts .drain from? s₀ stop t) :
    (do
      let progress ← AudioUploadQueue.uploadAll maxAttempts left progress
      let current ← get
      AudioUploadQueue.save (progress.reconciled current.tasks)
      let _ ← suspend .save
      modify fun queue => { queue with draining := false } : UploadProgram Unit).Follows
        (UploadSegment maxAttempts .drain) from? s₀ s := by
  induction left generalizing from? s₀ s progress with
  | nil =>
    change Follows _ from? s₀ (AudioUploadQueue.save _ >>= _) s
    rw [follows_bind, follows_save]
    refine ⟨hdrains _ _ ⟨rfl, rfl⟩, fun t => ?_⟩
    exact ⟨⟨rfl, rfl⟩, fun u _ => ⟨rfl, rfl⟩⟩
  | cons task left ih =>
    refine ⟨hdrains _ _ ⟨rfl, rfl⟩, fun t success => ?_⟩
    exact ih fun stop u hu => ⟨success, hu⟩

theorem follows_upload (call : UploadCall) (s : AudioUploadQueue) :
    (call.program maxAttempts).Follows (UploadSegment maxAttempts call) none s s := by
  cases call with
  | enqueue pieceId assetId localPath =>
    rw [UploadCall.program, AudioUploadQueue.enqueue, follows_get_bind]
    have hany : (s.tasks.any fun t => t.assetId == assetId) = true ↔ assetId ∈ s.assetIds := by
      simp [AudioUploadQueue.assetIds]
    split_ifs with hqueued
    · exact follows_done.mpr (by simp [UploadSegment, hany.mp hqueued])
    · have hnew : assetId ∉ s.assetIds := fun hin => hqueued (hany.mpr hin)
      rw [follows_bind, follows_save]
      exact ⟨by simp [Stop.Then, UploadSegment, hnew], fun t => ⟨⟨rfl, rfl⟩, fun u _ => ⟨rfl, rfl⟩⟩⟩
  | drain =>
    rw [UploadCall.program, AudioUploadQueue.drain, follows_get_bind]
    split_ifs with hdraining
    · exact follows_done.mpr (by simp [UploadSegment, hdraining])
    · rw [follows_modify_bind]
      exact follows_uploadAll fun stop t ht => by simpa [UploadSegment, hdraining] using ht

end

/-! ## The queue of one state -/

section

variable (maxAttempts : Int) (enqueued : List String) (queue : AudioUploadQueue)

/-- What holds of a queue and of the assets that have been enqueued, whatever runs. -/
structure QueueInv : Prop where
  fresh : enqueued.Nodup
  ordered : queue.assetIds.Sublist enqueued
  kept : ∀ assetId ∈ enqueued, assetId ∈ queue.assetIds ∨ queue.Succeeded assetId ∨
    maxAttempts ≤ queue.failures assetId
  known : ∀ upload ∈ queue.uploads, upload.1 ∈ enqueued
  counted : ∀ task ∈ queue.tasks, task.attempts ≤ queue.failures task.assetId

/-- What a drain that has still to upload the tasks `left` has made of the queue; the counts are
exact when no drain has been killed. -/
structure DrainInv (exact : Prop) (left : List AudioUploadTask) (progress : UploadProgress) :
    Prop where
  queued : ∀ task ∈ left, task ∈ queue.tasks
  distinct : (left.map (·.assetId)).Nodup
  ahead : ∀ task ∈ left, task.assetId ∉ progress.dropped ∧
    progress.replacements.get task.assetId = none
  dropped : ∀ assetId ∈ progress.dropped, assetId ∈ enqueued ∧
    (queue.Succeeded assetId ∨ maxAttempts ≤ queue.failures assetId)
  replaced : ∀ assetId retried, progress.replacements.get assetId = some retried →
    assetId ∉ progress.dropped ∧ ∃ task ∈ queue.tasks, task.assetId = assetId ∧
      retried = task.retried ∧ task.attempts + 1 ≤ queue.failures assetId
  succeeded : exact → ∀ task ∈ queue.tasks, queue.Succeeded task.assetId →
    task.assetId ∈ progress.dropped
  failed : exact → ∀ task ∈ queue.tasks, task.assetId ∉ progress.dropped →
    queue.failures task.assetId = task.attempts +
      if (progress.replacements.get task.assetId).isSome then 1 else 0

end

section

variable {maxAttempts : Int} {enqueued : List String} {queue : AudioUploadQueue} {exact : Prop}
  {left : List AudioUploadTask} {progress : UploadProgress}

theorem QueueInv.distinct (h : QueueInv maxAttempts enqueued queue) : queue.assetIds.Nodup :=
  h.fresh.sublist h.ordered

/-- An asset has one task at most. -/
theorem QueueInv.eq_of_assetId (h : QueueInv maxAttempts enqueued queue)
    {task task' : AudioUploadTask} (htask : task ∈ queue.tasks) (htask' : task' ∈ queue.tasks)
    (hid : task.assetId = task'.assetId) : task = task' :=
  List.inj_on_of_nodup_map h.distinct htask htask' hid

theorem QueueInv.mem_enqueued (h : QueueInv maxAttempts enqueued queue) {task : AudioUploadTask}
    (htask : task ∈ queue.tasks) : task.assetId ∈ enqueued :=
  h.ordered.subset (List.mem_map_of_mem htask)

/-- Nothing has been uploaded for an asset that is new. -/
theorem QueueInv.failures_of_new (h : QueueInv maxAttempts enqueued queue) {assetId : String}
    (hnew : assetId ∉ enqueued) : queue.failures assetId = 0 ∧ ¬queue.Succeeded assetId :=
  ⟨List.count_eq_zero.mpr fun hmem => hnew (h.known _ hmem), fun hmem => hnew (h.known _ hmem)⟩

/-- A new task is in nobody's way. -/
theorem queueInv_append (h : QueueInv maxAttempts enqueued queue) {task : AudioUploadTask}
    (hnew : task.assetId ∉ enqueued) (hattempts : task.attempts = 0) :
    QueueInv maxAttempts (enqueued ++ [task.assetId])
      { queue with tasks := queue.tasks ++ [task] } where
  fresh := List.nodup_append.mpr ⟨h.fresh, List.nodup_singleton _, by
    intro assetId hold assetId' hassetId'
    rw [List.mem_singleton.mp hassetId']
    exact fun heq => hnew (heq ▸ hold)⟩
  ordered := by
    have happend := h.ordered.append (List.Sublist.refl [task.assetId])
    simpa [AudioUploadQueue.assetIds] using happend
  kept assetId hassetId := by
    obtain hold | hlast := List.mem_append.mp hassetId
    · obtain hin | hout := h.kept assetId hold
      · exact .inl (by simpa [AudioUploadQueue.assetIds] using .inl (List.mem_map.mp hin))
      · exact .inr hout
    · rw [List.mem_singleton.mp hlast]
      exact .inl (by simp [AudioUploadQueue.assetIds])
  known upload hupload := List.mem_append_left _ (h.known upload hupload)
  counted task' htask' := by
    obtain hold | hlast := List.mem_append.mp htask'
    · exact h.counted task' hold
    · rw [List.mem_singleton.mp hlast, hattempts]
      exact Nat.zero_le _

theorem drainInv_append (h : QueueInv maxAttempts enqueued queue)
    (hdrain : DrainInv maxAttempts enqueued queue exact left progress) {task : AudioUploadTask}
    (hnew : task.assetId ∉ enqueued) (hattempts : task.attempts = 0) :
    DrainInv maxAttempts (enqueued ++ [task.assetId])
      { queue with tasks := queue.tasks ++ [task] } exact left progress where
  queued task' htask' := List.mem_append_left _ (hdrain.queued task' htask')
  distinct := hdrain.distinct
  ahead := hdrain.ahead
  dropped assetId hassetId :=
    ⟨List.mem_append_left _ (hdrain.dropped assetId hassetId).1, (hdrain.dropped assetId hassetId).2⟩
  replaced assetId retried hretried := by
    obtain ⟨hkept, task', htask', hrest⟩ := hdrain.replaced assetId retried hretried
    exact ⟨hkept, task', List.mem_append_left _ htask', hrest⟩
  succeeded hexact task' htask' hsucceeded := by
    obtain hold | hlast := List.mem_append.mp htask'
    · exact hdrain.succeeded hexact task' hold hsucceeded
    · rw [List.mem_singleton.mp hlast] at hsucceeded
      exact absurd hsucceeded (h.failures_of_new hnew).2
  failed hexact task' htask' hkept := by
    obtain hold | hlast := List.mem_append.mp htask'
    · exact hdrain.failed hexact task' hold hkept
    · rw [List.mem_singleton.mp hlast]
      have hzero : queue.failures task.assetId = 0 := (h.failures_of_new hnew).1
      have hnone : progress.replacements.get task.assetId = none := by
        cases hget : progress.replacements.get task.assetId with
        | none => rfl
        | some retried =>
          obtain ⟨-, old, hold, hid, -⟩ := hdrain.replaced _ _ hget
          exact absurd (hid ▸ h.mem_enqueued hold) hnew
      rw [hnone, hattempts]
      simpa [AudioUploadQueue.failures] using hzero

/-- The number of failures once an upload has returned. -/
theorem failures_upload (assetId assetId' : String) (success : Bool) :
    ({ queue with uploads := queue.uploads ++ [(assetId, success)] }).failures assetId' =
      queue.failures assetId' + if assetId = assetId' ∧ success = false then 1 else 0 := by
  simp [AudioUploadQueue.failures, List.count_append, List.count_singleton, Prod.ext_iff]

theorem succeeded_upload (assetId assetId' : String) (success : Bool) :
    ({ queue with uploads := queue.uploads ++ [(assetId, success)] }).Succeeded assetId' ↔
      queue.Succeeded assetId' ∨ assetId' = assetId ∧ success = true := by
  simp [AudioUploadQueue.Succeeded, eq_comm]

/-- An upload has returned. -/
theorem queueInv_upload (h : QueueInv maxAttempts enqueued queue) {task : AudioUploadTask}
    (hqueued : task ∈ queue.tasks) (success : Bool) :
    QueueInv maxAttempts enqueued
      { queue with uploads := queue.uploads ++ [(task.assetId, success)] } where
  fresh := h.fresh
  ordered := h.ordered
  kept assetId hassetId := by
    rw [succeeded_upload, failures_upload]
    obtain hin | hsucceeded | hfailed := h.kept assetId hassetId
    · exact .inl hin
    · exact .inr (.inl (.inl hsucceeded))
    · exact .inr (.inr (by push_cast; split_ifs <;> omega))
  known upload hupload := by
    obtain hold | hlast := List.mem_append.mp hupload
    · exact h.known upload hold
    · rw [List.mem_singleton.mp hlast]
      exact h.mem_enqueued hqueued
  counted task' htask' := by
    have hcounted := h.counted task' htask'
    rw [failures_upload]
    split_ifs <;> omega

section

variable {task : AudioUploadTask} {success : Bool}
  (hdrain : DrainInv maxAttempts enqueued queue exact (task :: left) progress)

include hdrain

/-- The other tasks that a drain has still to upload are not the one it has uploaded. -/
theorem assetId_ne_of_mem_left {task' : AudioUploadTask} (htask' : task' ∈ left) :
    task'.assetId ≠ task.assetId := by
  intro hid
  have hdistinct := hdrain.distinct
  rw [List.map_cons, List.nodup_cons] at hdistinct
  exact hdistinct.1 (hid ▸ List.mem_map_of_mem htask')

/-- A task is kept for one more attempt. -/
theorem drainInv_replace (hcounted : task.attempts ≤ queue.failures task.assetId) :
    DrainInv maxAttempts enqueued
      { queue with uploads := queue.uploads ++ [(task.assetId, false)] } exact left
        { progress with
          replacements := progress.replacements.set task.assetId task.retried } where
  queued task' htask' := hdrain.queued task' (List.mem_cons_of_mem _ htask')
  distinct := (List.nodup_cons.mp hdrain.distinct).2
  ahead task' htask' := by
    obtain ⟨hdropped, hreplaced⟩ := hdrain.ahead task' (List.mem_cons_of_mem _ htask')
    have hne := assetId_ne_of_mem_left hdrain htask'
    exact ⟨hdropped, by rw [Assoc.get_set_of_ne _ hne, hreplaced]⟩
  dropped assetId hassetId := by
    rw [succeeded_upload, failures_upload]
    obtain ⟨hknown, hsucceeded | hfailed⟩ := hdrain.dropped assetId hassetId
    · exact ⟨hknown, .inl (.inl hsucceeded)⟩
    · exact ⟨hknown, .inr (by push_cast; split_ifs <;> omega)⟩
  replaced assetId retried hretried := by
    rw [failures_upload]
    rw [Assoc.get_set] at hretried
    split_ifs at hretried with hid
    · obtain rfl := hid
      refine ⟨(hdrain.ahead task List.mem_cons_self).1, task,
        hdrain.queued task List.mem_cons_self, rfl, (Option.some.inj hretried).symm, ?_⟩
      simpa using hcounted
    · obtain ⟨hkept, task', htask', hid', heq, hold⟩ := hdrain.replaced assetId retried hretried
      refine ⟨hkept, task', htask', hid', heq, ?_⟩
      split_ifs <;> omega
  succeeded hexact task' htask' hsucceeded := by
    rw [succeeded_upload] at hsucceeded
    obtain hold | ⟨-, hsuccess⟩ := hsucceeded
    · exact hdrain.succeeded hexact task' htask' hold
    · cases hsuccess
  failed hexact task' htask' hkept := by
    have hfailed := hdrain.failed hexact task' htask' hkept
    rw [failures_upload, Assoc.get_set]
    by_cases hid : task'.assetId = task.assetId
    · have hnone : progress.replacements.get task'.assetId = none :=
        hid ▸ (hdrain.ahead task List.mem_cons_self).2
      rw [hnone] at hfailed
      simp [hid] at hfailed ⊢
      exact hfailed
    · simpa [hid, Ne.symm hid] using hfailed

variable (h : QueueInv maxAttempts enqueued queue)

include h

/-- A task is dropped: it has been uploaded, or it is given up. -/
theorem drainInv_drop (hdone : queue.Succeeded task.assetId ∨ success = true ∨
      maxAttempts ≤ queue.failures task.assetId + 1) :
    DrainInv maxAttempts enqueued
      { queue with uploads := queue.uploads ++ [(task.assetId, success)] } exact left
        { progress with dropped := progress.dropped ++ [task.assetId] } where
  queued task' htask' := hdrain.queued task' (List.mem_cons_of_mem _ htask')
  distinct := (List.nodup_cons.mp hdrain.distinct).2
  ahead task' htask' := by
    obtain ⟨hdropped, hreplaced⟩ := hdrain.ahead task' (List.mem_cons_of_mem _ htask')
    have hne := assetId_ne_of_mem_left hdrain htask'
    exact ⟨by simp [hdropped, hne], hreplaced⟩
  dropped assetId hassetId := by
    rw [succeeded_upload, failures_upload]
    obtain hold | hlast := List.mem_append.mp hassetId
    · obtain ⟨hknown, hsucceeded | hfailed⟩ := hdrain.dropped assetId hold
      · exact ⟨hknown, .inl (.inl hsucceeded)⟩
      · exact ⟨hknown, .inr (by push_cast; split_ifs <;> omega)⟩
    · rw [List.mem_singleton.mp hlast]
      refine ⟨h.mem_enqueued (hdrain.queued task List.mem_cons_self), ?_⟩
      cases success with
      | true => exact .inl (.inr ⟨rfl, rfl⟩)
      | false =>
        obtain hsucceeded | hsuccess | hfailed := hdone
        · exact .inl (.inl hsucceeded)
        · cases hsuccess
        · exact .inr (by simpa using hfailed)
  replaced assetId retried hretried := by
    obtain ⟨hkept, task', htask', hid, heq, hcounted⟩ := hdrain.replaced assetId retried hretried
    have hne : assetId ≠ task.assetId := by
      rintro rfl
      rw [(hdrain.ahead task List.mem_cons_self).2] at hretried
      cases hretried
    refine ⟨by simp [hkept, hne], task', htask', hid, heq, ?_⟩
    rw [failures_upload]
    split_ifs <;> omega
  succeeded hexact task' htask' hsucceeded := by
    rw [succeeded_upload] at hsucceeded
    obtain hold | ⟨hid, -⟩ := hsucceeded
    · exact List.mem_append_left _ (hdrain.succeeded hexact task' htask' hold)
    · exact List.mem_append_right _ (List.mem_singleton.mpr hid)
  failed hexact task' htask' hkept := by
    obtain ⟨hkept, hne⟩ : task'.assetId ∉ progress.dropped ∧ task'.assetId ≠ task.assetId := by
      simpa [not_or] using hkept
    rw [failures_upload, if_neg (fun hboth => hne hboth.1.symm)]
    exact hdrain.failed hexact task' htask' hkept

theorem drainInv_upload (success : Bool) :
    DrainInv maxAttempts enqueued
      { queue with uploads := queue.uploads ++ [(task.assetId, success)] } exact left
        (progress.record maxAttempts task success) := by
  have hcounted := h.counted task (hdrain.queued task List.mem_cons_self)
  rw [UploadProgress.record]
  split_ifs with hsuccess hretried
  · exact drainInv_drop hdrain h (.inr (.inl hsuccess))
  · rw [Bool.not_eq_true] at hsuccess
    rw [hsuccess]
    exact drainInv_replace hdrain hcounted
  · refine drainInv_drop hdrain h (.inr (.inr ?_))
    simp only [AudioUploadTask.retried] at hretried
    omega

end

/-- A task of the reconciled queue was not dropped, and is the retried one or the old one. -/
theorem mem_reconciled {task : AudioUploadTask} :
    task ∈ progress.reconciled queue.tasks ↔ ∃ old ∈ queue.tasks,
      old.assetId ∉ progress.dropped ∧
        (progress.replacements.get old.assetId).getD old = task := by
  simp [UploadProgress.reconciled, and_assoc]

section

variable (hdrain : DrainInv maxAttempts enqueued queue exact [] progress)

include hdrain

/-- A replacement has the asset of the task that it replaces. -/
theorem assetId_getD (task : AudioUploadTask) :
    ((progress.replacements.get task.assetId).getD task).assetId = task.assetId := by
  cases hget : progress.replacements.get task.assetId with
  | none => rfl
  | some retried =>
    obtain ⟨-, old, -, hid, rfl, -⟩ := hdrain.replaced _ _ hget
    exact hid

/-- The assets that are not dropped stay where they were. -/
theorem assetIds_reconciled :
    ({ queue with tasks := progress.reconciled queue.tasks } : AudioUploadQueue).assetIds =
      (queue.tasks.filter fun task => task.assetId ∉ progress.dropped).map (·.assetId) := by
  rw [AudioUploadQueue.assetIds, UploadProgress.reconciled, List.map_map]
  exact List.map_congr_left fun task _ => assetId_getD hdrain task

/-- What a task has counted is what its last attempts have been. -/
theorem attempts_getD (h : QueueInv maxAttempts enqueued queue) {task : AudioUploadTask}
    (htask : task ∈ queue.tasks) :
    ((progress.replacements.get task.assetId).getD task).attempts =
      task.attempts + if (progress.replacements.get task.assetId).isSome then 1 else 0 := by
  cases hget : progress.replacements.get task.assetId with
  | none => simp
  | some retried =>
    obtain ⟨-, old, hold, hid, rfl, -⟩ := hdrain.replaced _ _ hget
    obtain rfl := h.eq_of_assetId hold htask hid
    rfl

/-- The queue is reconciled. -/
theorem queueInv_reconciled (h : QueueInv maxAttempts enqueued queue) :
    QueueInv maxAttempts enqueued { queue with tasks := progress.reconciled queue.tasks } where
  fresh := h.fresh
  ordered := by
    rw [assetIds_reconciled hdrain]
    exact (List.filter_sublist.map _).trans h.ordered
  kept assetId hassetId := by
    rw [assetIds_reconciled hdrain]
    obtain hin | hout := h.kept assetId hassetId
    · by_cases hdropped : assetId ∈ progress.dropped
      · exact .inr (hdrain.dropped assetId hdropped).2
      · obtain ⟨task, htask, rfl⟩ := List.mem_map.mp hin
        exact .inl (List.mem_map_of_mem (List.mem_filter.mpr ⟨htask, by simpa using hdropped⟩))
    · exact .inr hout
  known := h.known
  counted task htask := by
    obtain ⟨old, hold, -, rfl⟩ := mem_reconciled.mp htask
    rw [assetId_getD hdrain, attempts_getD hdrain h hold]
    have hcounted := h.counted old hold
    split_ifs with hsome
    · obtain ⟨retried, hget⟩ := Option.isSome_iff_exists.mp hsome
      obtain ⟨-, old', hold', hid, -, hlt⟩ := hdrain.replaced _ _ hget
      obtain rfl := h.eq_of_assetId hold' hold hid
      exact hlt
    · rw [Nat.add_zero]
      exact hcounted

/-- Once it has been reconciled, a drain has nothing more to say of the queue. -/
theorem drainInv_reconciled (h : QueueInv maxAttempts enqueued queue) :
    DrainInv maxAttempts enqueued { queue with tasks := progress.reconciled queue.tasks } exact []
      .empty where
  queued _ htask := by cases htask
  distinct := List.nodup_nil
  ahead _ htask := by cases htask
  dropped _ hassetId := by cases hassetId
  replaced _ _ hretried := by cases hretried
  succeeded hexact task htask hsucceeded := by
    obtain ⟨old, hold, hkept, rfl⟩ := mem_reconciled.mp htask
    rw [assetId_getD hdrain] at hsucceeded
    exact absurd (hdrain.succeeded hexact old hold hsucceeded) hkept
  failed hexact task htask _ := by
    obtain ⟨old, hold, hkept, rfl⟩ := mem_reconciled.mp htask
    rw [assetId_getD hdrain, attempts_getD hdrain h hold]
    exact (hdrain.failed hexact old hold hkept).trans (Nat.add_zero _).symm

end

/-- A drain begins. -/
theorem drainInv_start (h : QueueInv maxAttempts enqueued queue)
    (hidle : DrainInv maxAttempts enqueued queue exact [] .empty) :
    DrainInv maxAttempts enqueued queue exact queue.tasks .empty :=
  { hidle with
    queued := fun _ htask => htask
    distinct := h.distinct
    ahead := fun _ _ => ⟨List.not_mem_nil, rfl⟩ }

/-- A queue with no drain is as its assets should be. -/
theorem settled_of_drainInv (h : QueueInv maxAttempts enqueued queue) (hexact : exact)
    (hidle : DrainInv maxAttempts enqueued queue exact [] .empty) {assetId : String}
    (hassetId : assetId ∈ enqueued) :
    (queue.Succeeded assetId → assetId ∉ queue.assetIds) ∧
      (¬queue.Succeeded assetId → queue.failures assetId < maxAttempts →
        ∃ task ∈ queue.tasks, task.assetId = assetId ∧
          task.attempts = queue.failures assetId) := by
  constructor
  · intro hsucceeded hin
    obtain ⟨task, htask, rfl⟩ := List.mem_map.mp hin
    cases hidle.succeeded hexact task htask hsucceeded
  · intro hnot hlt
    obtain hin | hsucceeded | hfailed := h.kept assetId hassetId
    · obtain ⟨task, htask, rfl⟩ := List.mem_map.mp hin
      have hfailed := hidle.failed hexact task htask List.not_mem_nil
      exact ⟨task, htask, rfl, (hfailed.trans (Nat.add_zero _)).symm⟩
    · exact absurd hsucceeded hnot
    · omega

end

end Duet
