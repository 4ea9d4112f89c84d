import Duet.Device.DeletedRecordings

/-!
# Recordings made offline

A drain takes an attempt off every recording in the queue that it does not upload, and every `put`
begins one. A recording that has used up its attempts is dropped, and no later drain uploads it. As
long as none is dropped, a drain that begins online and stays so uploads all that is there.

## Main definitions

* `CloudAudio.Kept`, `CloudAudio.Draining` — what holds of the store, and of a drain that runs.
* `CloudAudioCalls.OwedStored` — what a completed drain that began online owes is in Storage.

## Main results

* `keeps_of_segment` — what a call does from one await to the next keeps both.
* `owedStored_of_lasting` — in a run in which no attempts are used up, nothing is lost.
-/

namespace Duet

open Lib Async

def AudioUploadTask.recording (task : AudioUploadTask) : Recording := (task.pieceId, task.assetId)

namespace CloudAudio

/-- The recording is in Storage, or has been deleted. -/
def Has (s : CloudAudio) (recording : Recording) : Prop :=
  recording ∈ s.objects ∨ recording.2 ∈ s.deleted

/-- A recording that has been queued is in Storage, in the queue or deleted; its file is there; and
what a completed drain owes is in Storage. A drain that has something to cover is online. -/
structure Kept (s : CloudAudio) : Prop where
  distinct : (s.enqueued.map Prod.snd).Nodup
  queued : ∀ task ∈ s.queue.tasks, task.recording ∈ s.enqueued
  kept : ∀ recording ∈ s.enqueued, s.Has recording ∨
    ∃ task ∈ s.queue.tasks, task.recording = recording
  cached : ∀ recording ∈ s.enqueued, recording.2 ∈ s.cache ∨ recording.2 ∈ s.deleted
  returned : ∀ recording ∈ s.returned, recording ∈ s.enqueued
  covers : s.covers ≠ [] → s.online = true
  owed : ∀ recording ∈ s.owed, s.Has recording

/-- A drain has still to upload what it covers, or that is in Storage; what it drops is. -/
structure Draining (s : CloudAudio) (left : List AudioUploadTask) (progress : UploadProgress) :
    Prop where
  covers : ∀ recording ∈ s.covers, s.Has recording ∨ ∃ task ∈ left, task.recording = recording
  queued : ∀ task ∈ left, task.recording ∈ s.enqueued
  dropped : ∀ assetId ∈ progress.dropped, ∃ recording ∈ s.enqueued, recording.2 = assetId ∧
    s.Has recording
  replaced : ∀ assetId task, progress.replacements.get assetId = some task →
    task.assetId = assetId ∧ task.recording ∈ s.enqueued

/-- What a call that waits has done. -/
def Awaits (s : CloudAudio) : CloudAudioCall → CloudAudioAwait → Prop
  | .put _ _, .enqueue pieceId assetId _ => (pieceId, assetId) ∈ s.enqueued
  | .put _ _, .enqueued pieceId assetId => (pieceId, assetId) ∈ s.enqueued
  | .drainUploads, .upload task left progress => s.Draining (task :: left) progress
  | .drainUploads, .uploaded task left progress =>
    s.Draining (task :: left) progress ∧ s.Has task.recording
  | .drainUploads, .missing task left progress =>
    s.Draining (task :: left) progress ∧ task.assetId ∈ s.deleted
  | .drainUploads, .drain _ => s.Draining [] .empty
  | .delete assetId _, _ => assetId ∈ s.deleted
  | _, _ => True

/-- Uploads fail exactly while the app is offline. -/
def FailsOffline (s : CloudAudio) (reply : CloudAudioReply) : CloudAudioAwait → Prop
  | .upload _ _ _ | .uploaded _ _ _ => reply.success = s.online
  | _ => True

/-- An upload that fails is not the last one of its task, or does not matter. -/
def Lasts (maxAttempts : Int) (s : CloudAudio) (reply : CloudAudioReply) : CloudAudioAwait → Prop
  | .upload task _ _ | .uploaded task _ _ => reply.success = false →
      s.Has task.recording ∨ task.retried.attempts < maxAttempts
  | _ => True

instance (s : CloudAudio) (recording : Recording) : Decidable (s.Has recording) := by
  unfold Has
  infer_instance

instance (s : CloudAudio) (reply : CloudAudioReply) (point : CloudAudioAwait) :
    Decidable (s.FailsOffline reply point) := by
  unfold FailsOffline
  split <;> infer_instance

instance (maxAttempts : Int) (s : CloudAudio) (reply : CloudAudioReply) (point : CloudAudioAwait) :
    Decidable (s.Lasts maxAttempts reply point) := by
  unfold Lasts
  split <;> infer_instance

/-! ## One store -/

/-- What has been queued, deleted or stored stays so, unless it is deleted. -/
structure Grows (s t : CloudAudio) : Prop where
  enqueued : s.enqueued ⊆ t.enqueued
  deleted : s.deleted ⊆ t.deleted
  has : ∀ recording, s.Has recording → t.Has recording

section

variable {maxAttempts : Int} {s t : CloudAudio} {left : List AudioUploadTask}
  {progress : UploadProgress} {call : CloudAudioCall} {point : CloudAudioAwait}
  {task : AudioUploadTask}

theorem Draining.grows (h : s.Draining left progress) (hgrows : s.Grows t)
    (hcovers : t.covers ⊆ s.covers) : t.Draining left progress where
  covers recording hrecording := (h.covers recording (hcovers hrecording)).imp_left (hgrows.has _)
  queued task htask := hgrows.enqueued (h.queued task htask)
  dropped assetId hassetId := by
    obtain ⟨recording, hrecording, heq, hhas⟩ := h.dropped assetId hassetId
    exact ⟨recording, hgrows.enqueued hrecording, heq, hgrows.has _ hhas⟩
  replaced assetId task hget := by
    obtain ⟨heq, henqueued⟩ := h.replaced assetId task hget
    exact ⟨heq, hgrows.enqueued henqueued⟩

/-- Recordings with one asset are one. -/
theorem Kept.eq_of_snd (h : s.Kept) {r r' : Recording} (hr : r ∈ s.enqueued) (hr' : r' ∈ s.enqueued)
    (heq : r.2 = r'.2) : r = r' :=
  List.inj_on_of_nodup_map h.distinct hr hr' heq

/-- A drain writes what is left of the queue. -/
theorem Kept.reconciled (h : s.Kept) (hdraining : s.Draining [] progress) :
    Kept { s with queue := { s.queue with tasks := progress.reconciled s.queue.tasks } } := by
  refine ⟨h.distinct, fun task htask => ?_, fun recording hrecording => ?_, h.cached, h.returned,
    h.covers, h.owed⟩
  · obtain ⟨old, hold, -, rfl⟩ := mem_reconciled.mp htask
    cases hget : progress.replacements.get old.assetId with
    | none => exact h.queued old hold
    | some retried => exact (hdraining.replaced _ _ hget).2
  · refine (h.kept recording hrecording).elim .inl ?_
    rintro ⟨task, htask, rfl⟩
    by_cases hdropped : task.assetId ∈ progress.dropped
    · obtain ⟨other, hother, heq, hhas⟩ := hdraining.dropped _ hdropped
      obtain rfl := h.eq_of_snd hother hrecording heq
      exact .inl hhas
    · refine .inr ⟨_, mem_reconciled.mpr ⟨task, htask, hdropped, rfl⟩, ?_⟩
      cases hget : progress.replacements.get task.assetId with
      | none => rfl
      | some retried =>
        obtain ⟨heq, henqueued⟩ := hdraining.replaced _ _ hget
        exact h.eq_of_snd henqueued hrecording heq

/-- A drain goes on to its next upload, or writes what is left of the queue. -/
theorem Kept.drainsOn (h : s.Kept) (hdraining : s.Draining left progress)
    {stop : Stop CloudAudioAwait String (Option String)} (hon : s.DrainsOn left progress stop t) :
    t.Kept ∧ s.Grows t ∧ ∃ point, stop = .waits point ∧ t.Awaits .drainUploads point := by
  cases left with
  | nil =>
    obtain ⟨rfl, rfl⟩ := hon
    exact ⟨h.reconciled hdraining, ⟨.refl _, .refl _, fun _ => id⟩, _, rfl,
      hdraining.covers, hdraining.queued, nofun, nofun⟩
  | cons task left =>
    obtain ⟨rfl, rfl⟩ := hon
    refine ⟨h, ⟨.refl _, .refl _, fun _ => id⟩, _, rfl, ?_⟩
    split_ifs with hcached
    · exact hdraining
    · exact ⟨hdraining, (h.cached _ (hdraining.queued task List.mem_cons_self)).resolve_left hcached⟩

/-- A drain has heard of an upload: the recording is in Storage, or will be tried again. -/
theorem Draining.records (h : s.Draining (task :: left) progress) {success : Bool}
    (hcovers : s.Has task.recording ∨ s.covers = [])
    (hsuccess : s.Has task.recording ∨
      success = false ∧ task.retried.attempts < maxAttempts) :
    s.Draining left (progress.record maxAttempts task success) := by
  have htask := h.queued task List.mem_cons_self
  refine ⟨fun recording hrecording => ?_, fun other hother =>
    h.queued other (List.mem_cons_of_mem task hother), fun assetId hassetId => ?_,
    fun assetId other hget => ?_⟩
  · obtain hhas | ⟨other, hother, rfl⟩ := h.covers recording hrecording
    · exact .inl hhas
    · obtain rfl | hother := List.mem_cons.mp hother
      · exact .inl (hcovers.resolve_right (List.ne_nil_of_mem hrecording))
      · exact .inr ⟨other, hother, rfl⟩
  · have hold : assetId ∈ progress.dropped ∨ assetId = task.assetId ∧ s.Has task.recording := by
      unfold UploadProgress.record at hassetId
      split_ifs at hassetId <;> grind
    obtain hold | ⟨rfl, hhas⟩ := hold
    · exact h.dropped assetId hold
    · exact ⟨task.recording, htask, rfl, hhas⟩
  · have hold : progress.replacements.get assetId = some other ∨
        assetId = task.assetId ∧ other = task.retried := by
      unfold UploadProgress.record at hget
      split_ifs at hget
      · exact .inl hget
      · rw [Assoc.get_set] at hget
        split_ifs at hget with heq
        · exact .inr ⟨heq, (Option.some.inj hget).symm⟩
        · exact .inl hget
      · exact .inl hget
    obtain hold | ⟨rfl, rfl⟩ := hold
    · exact h.replaced assetId other hold
    · exact ⟨rfl, htask⟩

/-- A recording that has been copied is queued. -/
theorem Kept.accept (h : s.Kept) (hnew : task.assetId ∉ s.enqueued.map Prod.snd) :
    (s.accept task).Kept := by
  have hqueue : task.assetId ∉ s.queue.assetIds := by
    rintro hmem
    obtain ⟨other, hother, heq⟩ := List.mem_map.mp hmem
    exact hnew (List.mem_map.mpr ⟨_, h.queued other hother, heq⟩)
  have haccept : s.accept task = { s.addFile task.assetId with
      enqueued := s.enqueued ++ [task.recording]
      queue := { s.queue with tasks := s.queue.tasks ++ [task] } } := by
    rw [CloudAudio.accept, if_neg hqueue]
    rfl
  have hrec : ∀ recording ∈ s.enqueued ++ [task.recording], recording ∈ s.enqueued ∨
      recording = task.recording := by simp
  rw [haccept]
  refine ⟨?_, ?_, fun recording hrecording => ?_, fun recording hrecording => ?_,
    fun recording hrecording => List.mem_append_left _ (h.returned recording hrecording), h.covers,
    h.owed⟩
  · rw [List.map_append, List.map_singleton, ← List.concat_eq_append]
    exact h.distinct.concat hnew
  · refine List.forall_mem_append.mpr ⟨fun other hother => ?_, ?_⟩
    · exact List.mem_append_left _ (h.queued other hother)
    · simp
  · obtain hold | rfl := hrec recording hrecording
    · refine (h.kept recording hold).imp_right fun ⟨other, hother, heq⟩ => ?_
      exact ⟨other, List.mem_append_left _ hother, heq⟩
    · exact .inr ⟨task, List.mem_append_right _ List.mem_cons_self, rfl⟩
  · obtain hold | rfl := hrec recording hrecording
    · exact (h.cached recording hold).imp_left (List.mem_append_left _)
    · exact .inl (List.mem_append_right _ List.mem_cons_self)

theorem Grows.accept (s : CloudAudio) (task : AudioUploadTask) : s.Grows (s.accept task) :=
  ⟨List.subset_append_left _ _, .refl _, fun _ => id⟩

/-- A drain begins: what has been returned is in the queue, or in Storage. -/
theorem Kept.begin (h : s.Kept) :
    Kept { s.beginDrain with queue := { s.queue with draining := true } } ∧
      Draining { s.beginDrain with queue := { s.queue with draining := true } } s.queue.tasks
        .empty := by
  have hcovers : s.beginDrain.covers ⊆ s.returned := by
    unfold beginDrain
    dsimp only
    split_ifs
    · exact .refl _
    · exact List.nil_subset _
  refine ⟨⟨h.distinct, h.queued, h.kept, h.cached, h.returned, fun hne => ?_, h.owed⟩,
    fun recording hrecording => h.kept _ (h.returned _ (hcovers hrecording)), h.queued, nofun, nofun⟩
  by_contra honline
  exact hne (if_neg honline)

/-- What an upload of a drain that has something to cover comes back with: it has been stored. -/
theorem Kept.answers (h : s.Kept) {reply : CloudAudioReply} {success : Bool}
    (hanswers : UploadAnswers task left progress point reply success)
    (hawaits : s.Awaits .drainUploads point) (hfails : s.FailsOffline reply point)
    (hlasts : s.Lasts maxAttempts reply point) :
    s.Draining left (progress.record maxAttempts task success) := by
  -- a drain that covers something is online, and its uploads do not fail
  have hcovers : s.online = false → s.covers = [] := fun honline => by
    by_contra hne
    exact absurd (h.covers hne) (by simp [honline])
  cases hanswers with
  | lost _ hlost =>
    have hlasts := hlasts hlost
    refine Draining.records hawaits (.inr (hcovers (hfails.symm.trans hlost))) ?_
    exact hlasts.imp_right fun hlt => ⟨rfl, hlt⟩
  | answered => exact Draining.records hawaits.1 (.inl hawaits.2) (.inl hawaits.2)
  | missing =>
    have hhas : s.Has task.recording := .inr hawaits.2
    exact Draining.records hawaits.1 (.inl hhas) (.inl hhas)

/-- What does not touch the queue keeps the store. -/
theorem Kept.grows (h : s.Kept) (hgrows : s.Grows t) (henqueued : t.enqueued = s.enqueued)
    (htasks : t.queue.tasks = s.queue.tasks)
    (hcache : ∀ assetId ∈ s.cache, assetId ∈ t.cache ∨ assetId ∈ t.deleted)
    (hreturned : ∀ recording ∈ t.returned, recording ∈ s.returned ∨ recording ∈ t.enqueued)
    (hcovers : t.covers ≠ [] → t.online = true)
    (howed : ∀ recording ∈ t.owed, recording ∈ s.owed ∨ t.Has recording) : t.Kept where
  distinct := henqueued ▸ h.distinct
  queued := htasks ▸ henqueued ▸ h.queued
  kept := by
    rw [henqueued, htasks]
    exact fun recording hrecording => (h.kept recording hrecording).imp_left (hgrows.has _)
  cached := by
    rw [henqueued]
    exact fun recording hrecording => (h.cached recording hrecording).elim (hcache _)
      fun hdeleted => .inr (hgrows.deleted hdeleted)
  returned recording hrecording :=
    (hreturned recording hrecording).elim (fun hold => henqueued ▸ h.returned _ hold) id
  covers := hcovers
  owed recording hrecording :=
    (howed recording hrecording).elim (fun hold => hgrows.has _ (h.owed _ hold)) id

theorem Grows.refl (s : CloudAudio) : s.Grows s := ⟨.refl _, .refl _, fun _ => id⟩

theorem Grows.hear (s : CloudAudio) (task : AudioUploadTask) (success : Bool) :
    s.Grows (s.hear task success) :=
  ⟨.refl _, .refl _, fun _ => id⟩

theorem Grows.store (s : CloudAudio) (recording : Recording) : s.Grows (s.store recording) :=
  ⟨.refl _, .refl _, fun _ => Or.imp_left (List.mem_append_left _)⟩

/-- The object of an asset that is deleted is removed. -/
theorem Grows.remove (s : CloudAudio) {recording : Recording} (h : recording.2 ∈ s.deleted) :
    s.Grows (s.remove recording) := by
  refine ⟨.refl _, .refl _, fun other hother => ?_⟩
  by_cases heq : other = recording
  · exact .inr (heq ▸ h)
  · exact hother.imp_left fun hobject => List.mem_filter.mpr ⟨hobject, by simpa using heq⟩

/-- What leaves the queue, the cache and what is owed alone keeps the store. -/
theorem Kept.leaves (h : s.Kept) (hgrows : s.Grows t) (henqueued : t.enqueued = s.enqueued)
    (htasks : t.queue.tasks = s.queue.tasks) (hcache : t.cache = s.cache)
    (hreturned : t.returned = s.returned) (hcovers : t.covers ≠ [] → t.online = true)
    (howed : t.owed = s.owed) : t.Kept :=
  h.grows hgrows henqueued htasks (fun _ hassetId => .inl (hcache ▸ hassetId))
    (fun _ hrecording => .inl (hreturned ▸ hrecording)) hcovers
    (fun _ hrecording => .inl (howed ▸ hrecording))

/-- A recording that is queued is returned. -/
theorem Kept.returns (h : s.Kept) {recording : Recording} (hrecording : recording ∈ s.enqueued) :
    Kept { s with returned := s.returned ++ [recording] } := by
  refine h.grows ⟨.refl _, .refl _, fun _ => id⟩ rfl rfl (fun _ => .inl) (fun other hother => ?_)
    h.covers (fun _ => .inl)
  refine (List.mem_append.mp hother).imp_right fun hnew => ?_
  rwa [List.mem_singleton.mp hnew]

/-- A drain that is through has stored what it was to cover. -/
theorem Kept.settles (h : s.Kept) (hdraining : s.Draining [] progress) :
    Kept { s.settleDrain with queue := { s.queue with draining := false } } := by
  refine h.grows ⟨.refl _, .refl _, fun _ => id⟩ rfl rfl (fun _ => .inl) (fun _ => .inl) nofun
    fun recording hrecording => ?_
  refine (List.mem_append.mp hrecording).imp_right fun hcovered => ?_
  exact (hdraining.covers recording hcovered).resolve_right nofun

/-- An asset that is deleted leaves the cache. -/
theorem Kept.evicts (h : s.Kept) {assetId : String} (hdeleted : assetId ∈ s.deleted) :
    Kept { s with cache := s.cache.filter (· ≠ assetId) } := by
  refine h.grows ⟨.refl _, .refl _, fun _ => id⟩ rfl rfl (fun other hother => ?_) (fun _ => .inl)
    h.covers (fun _ => .inl)
  by_cases heq : other = assetId
  · exact .inr (heq ▸ hdeleted)
  · exact .inl (List.mem_filter.mpr ⟨hother, by simpa using heq⟩)

/-- A segment keeps the store: it stays as it was, or grows, and what is awaited stands. -/
structure Keeps (s : CloudAudio) (call : CloudAudioCall)
    (from? : Option (CloudAudioAwait × CloudAudioReply))
    (stop : Stop CloudAudioAwait String (Option String)) (t : CloudAudio) : Prop where
  kept : t.Kept
  grows : s.Grows t
  covers : t.covers ⊆ s.covers ∨ s.queue.draining = false ∧ from? = none
  awaits : ∀ point, stop = .waits point → t.Awaits call point

section

variable {from? : Option (CloudAudioAwait × CloudAudioReply)}

/-- A segment that changes nothing. -/
theorem Keeps.of_same (h : s.Kept) {stop : Stop CloudAudioAwait String (Option String)}
    (hawaits : ∀ point, stop = .waits point → s.Awaits call point) : s.Keeps call from? stop s :=
  ⟨h, .refl s, .inl (.refl _), hawaits⟩

/-- A segment that covers what was covered, and stops at an await. -/
theorem Keeps.of_waits (h : t.Kept) (hgrows : s.Grows t) (hcovers : t.covers ⊆ s.covers)
    (hawaits : t.Awaits call point) : s.Keeps call from? (.waits point) t := by
  refine ⟨h, hgrows, .inl hcovers, ?_⟩
  rintro _ ⟨⟩
  exact hawaits

/-- What a drain does when an upload has come back. -/
theorem Keeps.of_answers (h : s.Kept) {reply : CloudAudioReply} {success : Bool}
    {stop : Stop CloudAudioAwait String (Option String)}
    (hanswers : UploadAnswers task left progress point reply success)
    (hawaits : s.Awaits .drainUploads point) (hfails : s.FailsOffline reply point)
    (hlasts : s.Lasts maxAttempts reply point)
    (hon : (s.hear task success).DrainsOn left (progress.record maxAttempts task success) stop t) :
    s.Keeps .drainUploads from? stop t := by
  have hgrows := Grows.hear s task success
  have hdraining := (h.answers hanswers hawaits hfails hlasts).grows hgrows (.refl _)
  have hkept := h.leaves hgrows rfl rfl rfl rfl h.covers rfl
  obtain ⟨hkept, hgrows, point, rfl, hpoint⟩ := hkept.drainsOn hdraining hon
  refine .of_waits hkept ⟨hgrows.enqueued, hgrows.deleted, hgrows.has⟩ ?_ hpoint
  obtain ⟨⟨tasks, rfl⟩, -⟩ := hon.stops
  exact .refl _

/-- A drain that begins. -/
theorem Keeps.of_begins (h : s.Kept) {stop : Stop CloudAudioAwait String (Option String)}
    (hidle : s.queue.draining = false)
    (hon : CloudAudio.DrainsOn { s.beginDrain with queue := { s.queue with draining := true } }
      s.queue.tasks .empty stop t) : s.Keeps .drainUploads none stop t := by
  obtain ⟨hkept, hdraining⟩ := h.begin
  obtain ⟨hkept, hgrows, point, rfl, hpoint⟩ := hkept.drainsOn hdraining hon
  refine ⟨hkept, ⟨hgrows.enqueued, hgrows.deleted, hgrows.has⟩, .inr ⟨hidle, rfl⟩, ?_⟩
  rintro _ ⟨⟩
  exact hpoint

/-- What a call does from one await to the next keeps the store. -/
theorem keeps_of_segment {stop : Stop CloudAudioAwait String (Option String)} (h : s.Kept)
    (hseg : CloudAudioSegment maxAttempts call from? s stop t)
    (hawaits : ∀ point reply, from? = some (point, reply) → s.Awaits call point ∧
      s.FailsOffline reply point ∧ s.Lasts maxAttempts reply point ∧
      ∀ assetId ∈ CloudAudioCalls.copyingAt call point, assetId ∉ s.enqueued.map Prod.snd) :
    s.Keeps call from? stop t := by
  cases hseg with
  | accepts _ path pieceId assetId localPath reply next hnext =>
    obtain ⟨-, -, -, hfresh⟩ := hawaits _ _ rfl
    refine .of_waits (h.accept (hfresh assetId List.mem_cons_self)) (.accept ..) (.refl _) ?_
    have hmem : (pieceId, assetId) ∈ s.enqueued ++ [(pieceId, assetId)] :=
      List.mem_append_right _ List.mem_cons_self
    obtain rfl | rfl := hnext <;> exact hmem
  | saves _ _ pieceId assetId _ _ _ hnext =>
    obtain ⟨henqueued, -⟩ := hawaits _ _ rfl
    refine .of_waits h (.refl s) (.refl _) ?_
    obtain rfl | rfl := hnext <;> exact henqueued
  | returns _ path pieceId assetId =>
    obtain ⟨henqueued, -⟩ := hawaits _ _ rfl
    exact ⟨h.returns henqueued, ⟨.refl _, .refl _, fun _ => id⟩, .inl (.refl _), nofun⟩
  | begins _ _ _ hidle hon => exact .of_begins h hidle hon
  | stores _ task left progress reply hsuccess =>
    obtain ⟨hdraining, -⟩ := hawaits _ _ rfl
    have hgrows := Grows.store s task.recording
    have hstored : task.recording ∈ s.objects ++ [task.recording] :=
      List.mem_append_right _ List.mem_cons_self
    exact .of_waits (h.leaves hgrows rfl rfl rfl rfl h.covers rfl) hgrows (.refl _)
      ⟨Draining.grows hdraining hgrows (.refl _), .inl hstored⟩
  | answers _ task left progress point reply success _ _ hanswers hon =>
    obtain ⟨hawaits, hfails, hlasts, -⟩ := hawaits _ _ rfl
    exact .of_answers h hanswers hawaits hfails hlasts hon
  | drainSaves =>
    obtain ⟨hdraining, -⟩ := hawaits _ _ rfl
    exact .of_waits h (.refl s) (.refl _) hdraining
  | settles =>
    obtain ⟨hdraining, -⟩ := hawaits _ _ rfl
    exact ⟨h.settles hdraining, ⟨.refl _, .refl _, fun _ => id⟩, .inl (List.nil_subset _), nofun⟩
  | deletes _ assetId pieceId =>
    have hgrows : s.Grows { s with deleted := s.deleted ++ [assetId] } :=
      ⟨.refl _, List.subset_append_left _ _, fun _ => Or.imp_right (List.mem_append_left _)⟩
    exact .of_waits (h.leaves hgrows rfl rfl rfl rfl h.covers rfl) hgrows (.refl _)
      (List.mem_append_right _ List.mem_cons_self)
  | removes _ assetId pieceId reply =>
    obtain ⟨hdeleted, -⟩ := hawaits _ _ rfl
    split_ifs
    · have hgrows : s.Grows (s.remove (pieceId, assetId)) := .remove s hdeleted
      exact .of_waits (h.leaves hgrows rfl rfl rfl rfl h.covers rfl) hgrows (.refl _) hdeleted
    · exact .of_waits h (.refl s) (.refl _) hdeleted
  | evicts _ assetId =>
    obtain ⟨hdeleted, -⟩ := hawaits _ _ rfl
    exact ⟨h.evicts hdeleted, ⟨.refl _, .refl _, fun _ => id⟩, .inl (.refl _), nofun⟩
  | looks | finds =>
    obtain ⟨hdeleted, -⟩ := hawaits _ _ rfl
    exact .of_waits h (.refl s) (.refl _) hdeleted
  | copies =>
    have hgrows : s.Grows { s with seq := s.seq + 1 } := ⟨.refl _, .refl _, fun _ => id⟩
    exact .of_waits (h.leaves hgrows rfl rfl rfl rfl h.covers rfl) hgrows (.refl _) trivial
  | prepares => exact .of_waits h (.refl s) (.refl _) trivial
  | putFails | drainsAlready | findsNone => exact .of_same h nofun

end

end

end CloudAudio

/-! ## Runs -/

namespace CloudAudioCalls

/-- A drain that has begun. -/
def drainAt : CloudAudioCall → CloudAudioAwait → List Unit
  | .drainUploads, _ => [()]
  | _, _ => []

/-- The calls that wait, and what they await. -/
def pending (s : CloudAudioCalls) : List (CloudAudioCall × CloudAudioAwait) :=
  s.collect fun call point => [(call, point)]

/-- What was returned before a drain began online that has completed is in Storage, unless it has
been deleted. -/
def OwedStored (s : CloudAudioCalls) : Prop :=
  ∀ recording ∈ s.state.owed, recording.2 ∉ s.state.deleted → recording ∈ s.state.objects

/-- Uploads fail exactly while the app is offline. -/
def FailsOffline (s : CloudAudioCalls) : CloudAudioEvent → Prop
  | .resume i reply => ∀ task ∈ s.running[i]?, ∀ point ∈ task.rest.point?,
      s.state.FailsOffline reply point
  | _ => True

/-- A `put` comes up with an id that is new; an upload that fails is not the last one of its task;
and the connection is not lost while a drain runs that has begun online. -/
def Lasting (maxAttempts : Int) (s : CloudAudioCalls) : CloudAudioEvent → Prop
  | .resume i reply => ∀ task ∈ s.running[i]?, ∀ point ∈ task.rest.point?,
      s.state.Lasts maxAttempts reply point ∧ (point = .cacheDir →
        audioId reply.now s.state.seq ∉ s.state.enqueued.map Prod.snd ++ copying s)
  | .connectivity online => online = false → s.state.covers = []
  | _ => True

instance (s : CloudAudioCalls) (e : CloudAudioEvent) : Decidable (s.FailsOffline e) := by
  cases e <;> unfold FailsOffline <;> infer_instance

instance (maxAttempts : Int) (s : CloudAudioCalls) (e : CloudAudioEvent) :
    Decidable (s.Lasting maxAttempts e) := by
  cases e <;> unfold Lasting <;> infer_instance

/-- The ids of the recordings differ, every call that waits has done what it has, and one drain runs
at most. -/
structure Lossless (maxAttempts : Int) (s : CloudAudioCalls) : Prop where
  obeys : s.ObeysOn (CloudAudioSegment maxAttempts)
  kept : s.state.Kept
  fresh : (s.state.enqueued.map Prod.snd ++ copying s).Nodup
  awaits : ∀ x ∈ pending s, s.state.Awaits x.1 x.2
  drains : (s.collect drainAt).length = if s.state.queue.draining then 1 else 0

section

variable {maxAttempts : Int} {s t : CloudAudioCalls} {call : CloudAudioCall}
  {from? : Option (CloudAudioAwait × CloudAudioReply)}
  {stop : Stop CloudAudioAwait String (Option String)}

theorem awaits_grows {u v : CloudAudio} {point : CloudAudioAwait} (h : u.Awaits call point)
    (hgrows : u.Grows v) (hcovers : v.covers ⊆ u.covers ∨ drainAt call point = []) :
    v.Awaits call point := by
  cases call with
  | put =>
    cases point with
    | enqueue | enqueued => exact hgrows.enqueued h
    | _ => trivial
  | drainUploads =>
    replace hcovers : v.covers ⊆ u.covers := hcovers.resolve_right (List.cons_ne_nil _ _)
    cases point with
    | drain | upload => exact CloudAudio.Draining.grows h hgrows hcovers
    | uploaded => exact ⟨h.1.grows hgrows hcovers, hgrows.has _ h.2⟩
    | missing => exact ⟨h.1.grows hgrows hcovers, hgrows.deleted h.2⟩
    | _ => trivial
  | delete => exact hgrows.deleted h

/-- The ids stay different. -/
theorem fresh_of_segment (h : Lossless maxAttempts s)
    (hmoves : Lib.Isolate.Moves s t call (from?.map Prod.fst) stop)
    (hseg : CloudAudioSegment maxAttempts call from? s.state stop t.state)
    (hnew : ∀ reply, from? = some (.cacheDir, reply) →
      audioId reply.now s.state.seq ∉ s.state.enqueued.map Prod.snd ++ copying s) :
    (t.state.enqueued.map Prod.snd ++ copying t).Nodup := by
  have hperm := hmoves.collect copyingAt
  -- nothing is queued, and no recording begins to be copied
  have hold : t.state.enqueued = s.state.enqueued → stop.point?.elim [] (copyingAt call) = [] →
      (t.state.enqueued.map Prod.snd ++ copying t).Nodup := by
    intro henqueued hstop
    rw [hstop, List.append_nil] at hperm
    rw [henqueued]
    have hall := (hperm.append_left (s.state.enqueued.map Prod.snd)).nodup_iff.mpr h.fresh
    rw [← List.append_assoc] at hall
    exact hall.of_append_left
  generalize ht : t.state = u at hseg hold
  cases hseg with
  | copies _ path pieceId reply =>
    have hnew := hnew reply rfl
    generalize audioId reply.now s.state.seq = assetId at hperm hnew
    have hperm : (copying t).Perm (copying s ++ [assetId]) := by
      simpa [copying, copyingAt, Stop.point?] using hperm
    have hall := h.fresh.concat hnew
    rw [List.concat_eq_append, List.append_assoc] at hall
    exact (hperm.append_left _).nodup_iff.mpr hall
  | accepts _ path pieceId assetId localPath reply next hnext =>
    have hperm : (copying t ++ [assetId]).Perm (copying s) := by
      obtain rfl | rfl := hnext <;> simpa [copying, copyingAt, Stop.point?] using hperm
    change ((s.state.enqueued ++ [(pieceId, assetId)]).map Prod.snd ++ copying t).Nodup
    rw [List.map_append, List.append_assoc]
    exact ((List.perm_append_comm.trans hperm).append_left _).nodup_iff.mpr h.fresh
  | begins _ _ _ _ hon | answers _ _ _ _ _ _ _ _ _ _ hon =>
    obtain ⟨⟨tasks, rfl⟩, point, rfl, hpoint⟩ := hon.stops
    refine hold rfl ?_
    obtain rfl | ⟨task, left, progress, rfl⟩ | ⟨task, left, progress, rfl, -⟩ := hpoint <;> rfl
  | saves _ path pieceId assetId _ _ _ hnext =>
    refine hold rfl ?_
    obtain rfl | rfl := hnext <;> rfl
  | removes =>
    refine hold ?_ rfl
    split_ifs <;> rfl
  | _ => exact hold rfl rfl

/-- One drain runs at most. -/
theorem drains_of_segment (h : Lossless maxAttempts s)
    (hmoves : Lib.Isolate.Moves s t call (from?.map Prod.fst) stop)
    (hseg : CloudAudioSegment maxAttempts call from? s.state stop t.state) :
    (t.collect drainAt).length = if t.state.queue.draining then 1 else 0 := by
  have hlength := (hmoves.collect drainAt).length_eq
  have hdrains := h.drains
  rw [List.length_append, List.length_append] at hlength
  have hsame : t.state.queue.draining = s.state.queue.draining →
      ((from?.map Prod.fst).elim [] (drainAt call)).length =
        (stop.point?.elim [] (drainAt call)).length →
      (t.collect drainAt).length = if t.state.queue.draining then 1 else 0 := by
    intro hdraining heq
    rw [hdraining]
    omega
  generalize ht : t.state = u at hseg hsame
  cases hseg with
  | accepts _ path pieceId assetId localPath =>
    refine hsame ?_ rfl
    unfold CloudAudio.accept
    dsimp only
    split_ifs <;> rfl
  | begins _ _ _ hidle hon =>
    obtain ⟨⟨tasks, rfl⟩, point, rfl, -⟩ := hon.stops
    simp_all [drainAt, Stop.point?]
  | answers _ _ _ _ _ _ _ _ _ _ hon =>
    obtain ⟨⟨tasks, rfl⟩, point, rfl, -⟩ := hon.stops
    exact hsame rfl rfl
  | settles =>
    change (t.collect drainAt).length + 1 = (s.collect drainAt).length + 0 at hlength
    change (t.collect drainAt).length = 0
    split_ifs at hdrains <;> omega
  | removes =>
    refine hsame ?_ rfl
    split_ifs <;> rfl
  | _ => exact hsame rfl rfl

theorem drainAt_subset {x : CloudAudioCall × CloudAudioAwait} (h : x ∈ pending s) :
    drainAt x.1 x.2 ⊆ s.collect drainAt := by
  obtain ⟨task, htask, hx⟩ := List.mem_flatMap.mp h
  intro u hu
  refine List.mem_flatMap.mpr ⟨task, htask, ?_⟩
  cases hpoint : task.rest.point? with
  | none => simp [hpoint] at hx
  | some point =>
    obtain rfl : x = (task.call, point) := by simpa [hpoint] using hx
    exact hu

/-- What a call that goes on is allowed to come upon. -/
def Allows (maxAttempts : Int) (s : CloudAudioCalls) (point : CloudAudioAwait)
    (reply : CloudAudioReply) : Prop :=
  s.state.FailsOffline reply point ∧ s.state.Lasts maxAttempts reply point ∧ (point = .cacheDir →
    audioId reply.now s.state.seq ∉ s.state.enqueued.map Prod.snd ++ copying s)

/-- A call begins or goes on. -/
theorem Lossless.moves (h : Lossless maxAttempts s) (hobeys : t.ObeysOn (CloudAudioSegment maxAttempts))
    (hmoves : Lib.Isolate.Moves s t call (from?.map Prod.fst) stop)
    (hseg : CloudAudioSegment maxAttempts call from? s.state stop t.state)
    (hallows : ∀ point reply, from? = some (point, reply) → Allows maxAttempts s point reply) :
    Lossless maxAttempts t := by
  obtain ⟨hkept, hgrows, hcovers, hawaits⟩ := CloudAudio.keeps_of_segment h.kept hseg
    fun point reply hfrom => by
      obtain ⟨hfails, hlasts, -⟩ := hallows point reply hfrom
      refine ⟨?_, hfails, hlasts, fun assetId hassetId hmem => ?_⟩
      · refine h.awaits (call, point) (hmoves.before _ ?_)
        simp [hfrom]
      · have hcopying : assetId ∈ copying s := hmoves.before copyingAt (by simpa [hfrom] using hassetId)
        exact List.disjoint_of_nodup_append h.fresh hmem hcopying
  refine ⟨hobeys, hkept, fresh_of_segment h hmoves hseg fun reply hfrom =>
    (hallows _ reply hfrom).2.2 rfl, fun x hx => ?_, drains_of_segment h hmoves hseg⟩
  obtain hold | hnew := (hmoves.mem_iff (f := fun call point => [(call, point)])).mp (.inl hx)
  · refine awaits_grows (h.awaits x hold) hgrows (hcovers.imp_right fun ⟨hidle, _⟩ => ?_)
    -- what a drain covers is set when it begins, and no other one runs then
    have hdrains := h.drains
    rw [hidle] at hdrains
    have hnil := List.eq_nil_of_length_eq_zero hdrains
    exact List.eq_nil_of_subset_nil (hnil ▸ drainAt_subset hold)
  · cases stop with
    | waits point =>
      obtain rfl := List.mem_singleton.mp hnew
      exact hawaits point rfl
    | ends => cases hnew

theorem lossless_start : Lossless maxAttempts start where
  obeys := nofun
  kept := ⟨.nil, nofun, nofun, nofun, nofun, nofun, nofun⟩
  fresh := .nil
  awaits := nofun
  drains := rfl

/-- The app is killed: nothing is on its way, and the queue is as it was. -/
theorem Lossless.restart (h : Lossless maxAttempts s) (hstep : advance maxAttempts s .kill = some t) :
    Lossless maxAttempts t := by
  obtain rfl := Lib.Isolate.kill_step.mp hstep
  have hkept := h.kept
  refine ⟨nofun, ⟨hkept.distinct, hkept.queued, hkept.kept, hkept.cached, hkept.returned, nofun,
    hkept.owed⟩, ?_, nofun, rfl⟩
  change (s.state.enqueued.map Prod.snd ++ []).Nodup
  rw [List.append_nil]
  exact h.fresh.of_append_left

theorem Lossless.make (h : Lossless maxAttempts s)
    (hstep : advance maxAttempts s (.call call) = some t) : Lossless maxAttempts t := by
  obtain ⟨hobeys, stop, hseg, hmoves⟩ :=
    Lib.Isolate.obeysOn_call CloudAudio.follows_perform h.obeys hstep
  exact h.moves hobeys hmoves hseg nofun

theorem lossless_step {e : CloudAudioEvent} (h : Lossless maxAttempts s) (hfails : s.FailsOffline e)
    (hlasting : s.Lasting maxAttempts e) (hstep : step maxAttempts s e = some t) :
    Lossless maxAttempts t := by
  cases e with
  | call call => exact h.make hstep
  | restart => exact h.restart hstep
  | connectivity online =>
    obtain rfl := Option.some.inj hstep
    have hkept := h.kept
    refine ⟨h.obeys, ⟨hkept.distinct, hkept.queued, hkept.kept, hkept.cached, hkept.returned,
      fun hcovers => ?_, hkept.owed⟩, h.fresh, fun x hx => ?_, h.drains⟩
    · by_contra honline
      exact hcovers (hlasting (by simpa using honline))
    · exact awaits_grows (h.awaits x hx) ⟨.refl _, .refl _, fun _ => id⟩ (.inl (.refl _))
  | resume i reply =>
    obtain ⟨u, hu, hstep⟩ := Option.bind_eq_some_iff.mp hstep
    obtain ⟨hobeys, call, point, k, stop, hrunning, hseg, hmoves⟩ :=
      Lib.Isolate.obeysOn_resume CloudAudio.follows_perform h.obeys hu
    have hresumed : Lossless maxAttempts u := h.moves hobeys hmoves hseg fun point' reply' hfrom => by
      obtain ⟨rfl, rfl⟩ := Prod.mk.inj (Option.some.inj hfrom)
      exact ⟨hfails _ hrunning point rfl, hlasting _ hrunning point rfl⟩
    split_ifs at hstep
    · exact hresumed.make hstep
    · obtain rfl := Option.some.inj hstep
      exact hresumed

/-- In a run whose uploads fail exactly while the app is offline, and in which none that fails is the
last one of its task, a completed drain that began online, and stayed so, has left what had been
returned before it in Storage. -/
theorem owedStored_of_lasting {events : List CloudAudioEvent}
    (hfails : EachStep (step maxAttempts) FailsOffline start events)
    (hlasting : EachStep (step maxAttempts) (Lasting maxAttempts) start events) :
    Always (step maxAttempts) OwedStored start events :=
  .of_invariant (fun _ _ _ h hcond hstep => lossless_step h hcond.1 hcond.2 hstep)
    (fun _ h recording howed hdeleted => (h.kept.owed recording howed).resolve_right hdeleted)
    lossless_start (hfails.and hlasting)

end

/-- An upload that does not get through, on the first of January 1970. -/
def lost : CloudAudioReply := ⟨false, .sinceEpoch 0⟩

/-- A drain whose one upload does not get through. -/
def failsToUpload : List CloudAudioEvent := [.resume 0 lost, .resume 0 fine, .resume 0 fine]

/-- A recording is put offline, and as many drains more begin there; the app goes online, and another
one does. -/
def recordsOffline (drains : Nat) : List CloudAudioEvent :=
  .connectivity false :: putsRecording ++ failsToUpload ++
    (List.replicate drains (.call .drainUploads :: failsToUpload)).flatten ++
      [.connectivity true, .call .drainUploads]

theorem owedStored_recordsOffline : Always (step 5) OwedStored start
    (recordsOffline 3 ++ List.replicate 4 (.resume 0 fine)) :=
  owedStored_of_lasting (by decide +kernel) (by decide +kernel)

/-- After five attempts the recording is dropped. -/
theorem not_owedStored : ¬∀ events, EachStep (step 5) FailsOffline start events →
    Always (step 5) OwedStored start events := by
  intro h
  have hfails : EachStep (step 5) FailsOffline start
      (recordsOffline 4 ++ List.replicate 2 (.resume 0 fine)) := by decide +kernel
  have hruns : ((run (step 5) start (recordsOffline 4 ++ List.replicate 2 (.resume 0 fine))).any
      fun s => decide (("p", "audio_0_0") ∈ s.state.owed) &&
        decide ("audio_0_0" ∉ s.state.deleted) &&
          decide (("p", "audio_0_0") ∉ s.state.objects)) = true := by decide +kernel
  obtain ⟨s, hrun, hs⟩ := (Option.any_eq_true _ _).mp hruns
  simp only [Bool.and_eq_true, decide_eq_true_eq] at hs
  obtain ⟨⟨howed, hdeleted⟩, hobject⟩ := hs
  exact hobject ((h _ hfails).last hrun ("p", "audio_0_0") howed hdeleted)

end CloudAudioCalls

end Duet
