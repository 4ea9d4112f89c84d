import Duet.Device.AudioAssetStore
import Duet.Device.AudioUploadQueue

/-!
# `CloudAudioAssetStore`

Recordings with a copy on the device and an object in Storage. `put` copies the recording into
`audio_notes/`, queues its upload and begins a drain that it does not wait for; `delete` removes the
object and the copy. The queue is that of `AudioUploadQueue`, and its calls run inside those of the
store.

An upload, and the removal of an object, each take two awaits: until Storage has done what it is to
do, and until its answer has come back.

## Main definitions

* `CloudAudio.put`, `CloudAudio.delete`, `CloudAudio.drainUploads` — the members of the store.
* `CloudAudioCalls.step` — their calls, restarts of the app, and its connection.
* `CloudAudioSegment` — what a call does from one await to the next.
-/

namespace Duet

open Lib Async

/-- A recording: its piece and its asset. -/
abbrev Recording := String × String

/-- The queue; the counter of the process; the assets that have a file under `audio_notes/`; the
objects in Storage; whether the app is online. And, for what a run is to say, the recordings whose
uploads have been queued, those that a `put` has returned, and the assets that a `delete` has been
called for; the recordings that had been returned when the drain that runs began, if that was
online, and when one that has completed did. -/
structure CloudAudio where
  queue : AudioUploadQueue
  seq : Nat
  cache : List String
  objects : List Recording
  online : Bool
  enqueued : List Recording
  returned : List Recording
  deleted : List String
  covers : List Recording
  owed : List Recording
  deriving DecidableEq, Repr

inductive CloudAudioCall where
  | put (sourcePath pieceId : String)
  | drainUploads
  | delete (assetId pieceId : String)
  deriving DecidableEq, Repr

/-- What a call awaits. An upload is on its way, has been stored, or has found no file; and an
object is still to be removed, or has been. -/
inductive CloudAudioAwait where
  | cacheDir
  | copy (pieceId assetId : String)
  | enqueue (pieceId assetId : String) (point : UploadAwait)
  | enqueued (pieceId assetId : String)
  | drain (point : UploadAwait)
  | upload (task : AudioUploadTask) (left : List AudioUploadTask) (progress : UploadProgress)
  | uploaded (task : AudioUploadTask) (left : List AudioUploadTask) (progress : UploadProgress)
  | missing (task : AudioUploadTask) (left : List AudioUploadTask) (progress : UploadProgress)
  | deleteObject
  | objectDeleted
  | find
  | deleteFile
  deriving DecidableEq, Repr

/-- What comes back: whether it has succeeded, and what the clock says then. -/
structure CloudAudioReply where
  success : Bool
  now : DateTime
  deriving DecidableEq, Repr

abbrev CloudAudioProgram (α : Type) := Async CloudAudioAwait CloudAudioReply CloudAudio String α

namespace CloudAudio

def initial : CloudAudio := ⟨⟨[], false, []⟩, 0, [], [], true, [], [], [], [], []⟩

/-- A call on the queue. -/
def onQueue {α : Type} (serve : UploadAwait → CloudAudioProgram Bool) (p : UploadProgram α) :
    CloudAudioProgram α :=
  p.within CloudAudio.queue (fun s queue => { s with queue }) serve

/-- The file of the asset has been copied to `audio_notes/`. -/
def addFile (s : CloudAudio) (assetId : String) : CloudAudio :=
  { s with cache := s.cache ++ [assetId] }

/-- The recording is in Storage. -/
def store (s : CloudAudio) (recording : Recording) : CloudAudio :=
  { s with objects := s.objects ++ [recording] }

/-- `put`. It begins a drain before it returns: see `CloudAudioCalls.step`. -/
def put (sourcePath pieceId : String) : CloudAudioProgram (Option String) := do
  let dir ← suspend .cacheDir
  if !dir.success then fail "documentsDirectory"
  else do
    let s ← get
    let id := audioId dir.now s.seq
    modify fun s => { s with seq := s.seq + 1 }
    let copied ← suspend (.copy pieceId id)
    if !copied.success then fail "copy"
    else do
      modify fun s => { s.addFile id with enqueued := s.enqueued ++ [(pieceId, id)] }
      onQueue (fun point => suspend (.enqueue pieceId id point) >>= fun _ => done true)
        (AudioUploadQueue.enqueue
          ⟨pieceId, id, Path.join "audio_notes" (id ++ Path.extension sourcePath), 0⟩)
      let _ ← suspend (.enqueued pieceId id)
      modify fun s => { s with returned := s.returned ++ [(pieceId, id)] }
      done (some id)

/-- `_objectStore.upload`, of a task of a drain. A file that is gone is not uploaded. -/
def uploadOne (task : AudioUploadTask) (left : List AudioUploadTask) (progress : UploadProgress) :
    CloudAudioProgram Bool := do
  let s ← get
  if task.assetId ∈ s.cache then do
    let stored ← suspend (.upload task left progress)
    if stored.success then do
      modify fun s => s.store (task.pieceId, task.assetId)
      let answer ← suspend (.uploaded task left progress)
      done answer.success
    else done false
  else do
    let _ ← suspend (.missing task left progress)
    done false

/-- What a drain awaits: its uploads, and the preferences. -/
def serveDrain : UploadAwait → CloudAudioProgram Bool
  | .uploadOne task left progress => uploadOne task left progress
  | point => suspend (.drain point) >>= fun _ => done true

/-- A drain that begins, and one that has completed. -/
def beginDrain (s : CloudAudio) : CloudAudio :=
  { s with covers := if s.online then s.returned else [] }

def settleDrain (s : CloudAudio) : CloudAudio :=
  { s with covers := [], owed := s.owed ++ s.covers }

/-- `drainUploads`; it is noted what a drain that runs is to cover. -/
def drainUploads (maxAttempts : Int) : CloudAudioProgram (Option String) := do
  let s ← get
  modify fun t => if s.queue.draining then t else t.beginDrain
  onQueue serveDrain (AudioUploadQueue.drain maxAttempts)
  modify fun t => if s.queue.draining then t else t.settleDrain
  done none

/-- The object is no longer in Storage. -/
def remove (s : CloudAudio) (recording : Recording) : CloudAudio :=
  { s with objects := s.objects.filter (· ≠ recording) }

/-- `delete`. What the removal of the object answers is not looked at. -/
def delete (assetId pieceId : String) : CloudAudioProgram (Option String) := do
  modify fun s => { s with deleted := s.deleted ++ [assetId] }
  let gone ← suspend .deleteObject
  modify fun s => if gone.success then s.remove (pieceId, assetId) else s
  let _ ← suspend .objectDeleted
  let _ ← suspend .find
  let s ← get
  if assetId ∈ s.cache then do
    let _ ← suspend .deleteFile
    let s ← get
    modify fun s => { s with cache := s.cache.filter (· ≠ assetId) }
    if assetId ∈ s.cache then done none else fail "PathNotFoundException"
  else done none

def perform (maxAttempts : Int) : CloudAudioCall → CloudAudioProgram (Option String)
  | .put sourcePath pieceId => put sourcePath pieceId
  | .drainUploads => drainUploads maxAttempts
  | .delete assetId pieceId => delete assetId pieceId

/-- The app starts anew: no drain runs, and the counter is back at its start. -/
def restart (s : CloudAudio) : CloudAudio :=
  { s with queue := { s.queue with draining := false }, seq := 0, covers := [] }

end CloudAudio

/-! ## Runs -/

/-- The store, and the calls that run on it. -/
abbrev CloudAudioCalls :=
  Lib.Isolate CloudAudioCall CloudAudioAwait CloudAudioReply CloudAudio String (Option String)

/-- What can happen: a call is made or goes on, the app is killed and starts anew, or its connection
changes. -/
inductive CloudAudioEvent where
  | call (call : CloudAudioCall)
  | resume (i : Nat) (reply : CloudAudioReply)
  | restart
  | connectivity (online : Bool)
  deriving DecidableEq, Repr

namespace CloudAudioCalls

/-- The `i`-th call that runs is a `put` that is about to return. -/
def putReturns (s : CloudAudioCalls) (i : Nat) : Bool :=
  s.running[i]?.any fun task => match task.rest.point? with
    | some (.enqueued _ _) => true
    | _ => false

variable (maxAttempts : Int)

/-- A step of the calls alone. -/
def advance (s : CloudAudioCalls) (event : IsolateEvent CloudAudioCall CloudAudioReply) :
    Option CloudAudioCalls :=
  Lib.Isolate.step (CloudAudio.perform maxAttempts) CloudAudio.restart s event

/-- One event. A `put` that returns calls `drainUploads`, and does not wait for it. -/
def step (s : CloudAudioCalls) : CloudAudioEvent → Option CloudAudioCalls
  | .call call => advance maxAttempts s (.call call)
  | .resume i reply => (advance maxAttempts s (.resume i reply)).bind fun t =>
      if putReturns s i then advance maxAttempts t (.call .drainUploads) else some t
  | .restart => advance maxAttempts s .kill
  | .connectivity online => some { s with state := { s.state with online } }

/-- Nothing has been recorded. -/
def start : CloudAudioCalls := Lib.Isolate.start .initial

end CloudAudioCalls

/-! ## The segments of the calls -/

/-- A drain goes on to its next upload, or to what it saves at its end. -/
def CloudAudio.DrainsOn (s : CloudAudio) (left : List AudioUploadTask) (progress : UploadProgress)
    (stop : Stop CloudAudioAwait String (Option String)) (t : CloudAudio) : Prop :=
  match left with
  | [] => stop = .waits (.drain .setString) ∧
      t = { s with queue := { s.queue with tasks := progress.reconciled s.queue.tasks } }
  | task :: left => t = s ∧ stop = .waits
      (if task.assetId ∈ s.cache then .upload task left progress else .missing task left progress)

/-- Where a drain that goes on stops, and what it has changed: the queue alone. -/
theorem CloudAudio.DrainsOn.stops {s t : CloudAudio} {left : List AudioUploadTask}
    {progress : UploadProgress} {stop : Stop CloudAudioAwait String (Option String)}
    (h : s.DrainsOn left progress stop t) :
    (∃ tasks, t = { s with queue := { s.queue with tasks } }) ∧ ∃ point, stop = .waits point ∧
      (point = .drain .setString ∨ (∃ task left progress, point = .missing task left progress) ∨
        ∃ task left progress, point = .upload task left progress ∧ task.assetId ∈ s.cache) := by
  cases left with
  | nil =>
    obtain ⟨rfl, rfl⟩ := h
    exact ⟨⟨_, rfl⟩, _, rfl, .inl rfl⟩
  | cons task left =>
    obtain ⟨rfl, rfl⟩ := h
    refine ⟨⟨t.queue.tasks, rfl⟩, _, rfl, .inr ?_⟩
    split_ifs with hcached
    · exact .inr ⟨task, left, progress, rfl, hcached⟩
    · exact .inl ⟨task, left, progress, rfl⟩

/-- An upload comes back, with or without success. -/
inductive UploadAnswers (task : AudioUploadTask) (left : List AudioUploadTask)
    (progress : UploadProgress) : CloudAudioAwait → CloudAudioReply → Bool → Prop where
  | lost (reply) : reply.success = false →
    UploadAnswers task left progress (.upload task left progress) reply false
  | answered (reply) :
    UploadAnswers task left progress (.uploaded task left progress) reply reply.success
  | missing (reply) : UploadAnswers task left progress (.missing task left progress) reply false

/-- The drain has heard of an upload. -/
def CloudAudio.hear (s : CloudAudio) (task : AudioUploadTask) (success : Bool) : CloudAudio :=
  { s with queue := { s.queue with uploads := s.queue.uploads ++ [(task.assetId, success)] } }

/-- A recording that has been copied is queued. -/
def CloudAudio.accept (s : CloudAudio) (task : AudioUploadTask) : CloudAudio :=
  { s.addFile task.assetId with
    enqueued := s.enqueued ++ [(task.pieceId, task.assetId)]
    queue := if task.assetId ∈ s.queue.assetIds then s.queue
      else { s.queue with tasks := s.queue.tasks ++ [task] } }

open CloudAudio in
/-- What a call does from one await to the next. -/
inductive CloudAudioSegment (maxAttempts : Int) : CloudAudioCall →
    Option (CloudAudioAwait × CloudAudioReply) → CloudAudio →
    Stop CloudAudioAwait String (Option String) → CloudAudio → Prop where
  | prepares (s path pieceId) :
    CloudAudioSegment maxAttempts (.put path pieceId) none s (.waits .cacheDir) s
  | copies (s path pieceId reply) :
    CloudAudioSegment maxAttempts (.put path pieceId) (some (.cacheDir, reply)) s
      (.waits (.copy pieceId (audioId reply.now s.seq))) { s with seq := s.seq + 1 }
  | putFails (s path pieceId point reply error) :
    CloudAudioSegment maxAttempts (.put path pieceId) (some (point, reply)) s
      (.ends (.error error)) s
  | accepts (s path pieceId assetId localPath reply next) : (next = .enqueued pieceId assetId ∨
      next = .enqueue pieceId assetId .setString) →
    CloudAudioSegment maxAttempts (.put path pieceId) (some (.copy pieceId assetId, reply)) s
      (.waits next) (s.accept ⟨pieceId, assetId, localPath, 0⟩)
  | saves (s path pieceId assetId point reply next) : (next = .enqueued pieceId assetId ∨
      next = .enqueue pieceId assetId .save) →
    CloudAudioSegment maxAttempts (.put path pieceId)
      (some (.enqueue pieceId assetId point, reply)) s (.waits next) s
  | returns (s path pieceId assetId reply) :
    CloudAudioSegment maxAttempts (.put path pieceId) (some (.enqueued pieceId assetId, reply)) s
      (.ends (.ok (some assetId))) { s with returned := s.returned ++ [(pieceId, assetId)] }
  | drainsAlready (s) : s.queue.draining = true →
    CloudAudioSegment maxAttempts .drainUploads none s (.ends (.ok none)) s
  | begins (s stop t) : s.queue.draining = false →
    DrainsOn { s.beginDrain with queue := { s.queue with draining := true } } s.queue.tasks .empty
      stop t →
    CloudAudioSegment maxAttempts .drainUploads none s stop t
  | stores (s task left progress reply) : reply.success = true →
    CloudAudioSegment maxAttempts .drainUploads (some (.upload task left progress, reply)) s
      (.waits (.uploaded task left progress)) (s.store (task.pieceId, task.assetId))
  | answers (s task left progress point reply success stop t) :
    UploadAnswers task left progress point reply success →
    DrainsOn (s.hear task success) left (progress.record maxAttempts task success) stop t →
    CloudAudioSegment maxAttempts .drainUploads (some (point, reply)) s stop t
  | drainSaves (s reply) :
    CloudAudioSegment maxAttempts .drainUploads (some (.drain .setString, reply)) s
      (.waits (.drain .save)) s
  | settles (s reply) :
    CloudAudioSegment maxAttempts .drainUploads (some (.drain .save, reply)) s (.ends (.ok none))
      { s.settleDrain with queue := { s.queue with draining := false } }
  | deletes (s assetId pieceId) :
    CloudAudioSegment maxAttempts (.delete assetId pieceId) none s (.waits .deleteObject)
      { s with deleted := s.deleted ++ [assetId] }
  | removes (s assetId pieceId reply) :
    CloudAudioSegment maxAttempts (.delete assetId pieceId) (some (.deleteObject, reply)) s
      (.waits .objectDeleted) (if reply.success then s.remove (pieceId, assetId) else s)
  | looks (s assetId pieceId reply) :
    CloudAudioSegment maxAttempts (.delete assetId pieceId) (some (.objectDeleted, reply)) s
      (.waits .find) s
  | finds (s assetId pieceId reply) : assetId ∈ s.cache →
    CloudAudioSegment maxAttempts (.delete assetId pieceId) (some (.find, reply)) s
      (.waits .deleteFile) s
  | findsNone (s assetId pieceId reply) : assetId ∉ s.cache →
    CloudAudioSegment maxAttempts (.delete assetId pieceId) (some (.find, reply)) s
      (.ends (.ok none)) s
  | evicts (s assetId pieceId reply outcome) :
    CloudAudioSegment maxAttempts (.delete assetId pieceId) (some (.deleteFile, reply)) s
      (.ends outcome) { s with cache := s.cache.filter (· ≠ assetId) }

namespace CloudAudio

section

variable {maxAttempts : Int} {from? : Option (CloudAudioAwait × CloudAudioReply)}
  {s₀ s : CloudAudio}

theorem follows_put (s : CloudAudio) (path pieceId : String) : (put path pieceId).FollowsOn
    (CloudAudioSegment maxAttempts (.put path pieceId)) none s s := by
  refine ⟨.prepares s path pieceId, fun s dir => ?_⟩
  change FollowsOn _ _ s (if !dir.success then _ else _) s
  split_ifs
  · exact .putFails s path pieceId _ dir _
  refine ⟨.copies s path pieceId dir, fun s copied => ?_⟩
  generalize audioId dir.now _ = assetId
  change FollowsOn _ _ s (if !copied.success then _ else _) s
  split_ifs
  · exact .putFails s path pieceId _ copied _
  let task : AudioUploadTask :=
    ⟨pieceId, assetId, Path.join "audio_notes" (assetId ++ Path.extension path), 0⟩
  have hreturns : ∀ t reply, CloudAudioSegment maxAttempts (.put path pieceId)
      (some (.enqueued pieceId assetId, reply)) t (.ends (.ok (some assetId)))
      { t with returned := t.returned ++ [(pieceId, assetId)] } :=
    fun t reply => .returns t path pieceId assetId reply
  have hany : (s.queue.tasks.any fun t => t.assetId == assetId) = true ↔
      assetId ∈ s.queue.assetIds := by
    simp [AudioUploadQueue.assetIds]
  change FollowsOn _ _ s
    (onQueue _ (if s.queue.tasks.any fun t => t.assetId == assetId then _ else _) >>= _)
    { s.addFile assetId with enqueued := s.enqueued ++ [(pieceId, assetId)] }
  split_ifs with hqueued
  · have haccept : s.accept task =
        { s.addFile assetId with enqueued := s.enqueued ++ [(pieceId, assetId)] } := by
      rw [accept, if_pos (hany.mp hqueued)]
      rfl
    rw [← haccept]
    exact ⟨.accepts s path pieceId assetId task.localPath copied _ (.inl rfl), hreturns⟩
  · have haccept : s.accept task = { s.addFile assetId with
        enqueued := s.enqueued ++ [(pieceId, assetId)]
        queue := { s.queue with tasks := s.queue.tasks ++ [task] } } := by
      rw [accept, if_neg fun hin => hqueued (hany.mpr hin)]
    change FollowsOn _ _ s _ { s.addFile assetId with
      enqueued := s.enqueued ++ [(pieceId, assetId)]
      queue := { s.queue with tasks := s.queue.tasks ++ [task] } }
    rw [← haccept]
    exact ⟨.accepts s path pieceId assetId task.localPath copied _ (.inr rfl), fun t reply =>
      ⟨.saves t path pieceId assetId _ reply _ (.inr rfl), fun u reply =>
        ⟨.saves u path pieceId assetId _ reply _ (.inl rfl), hreturns⟩⟩⟩

/-- The rest of a drain, from its loop on. -/
theorem follows_uploads {left : List AudioUploadTask} {progress : UploadProgress}
    (hdrains : ∀ stop t, DrainsOn s left progress stop t →
      CloudAudioSegment maxAttempts .drainUploads from? s₀ stop t) :
    (onQueue serveDrain (do
      let progress ← AudioUploadQueue.uploadAll maxAttempts left progress
      let current ← get
      AudioUploadQueue.save (progress.reconciled current.tasks)
      let _ ← suspend .save
      modify fun queue => { queue with draining := false }) >>= fun _ => do
        modify fun t => t.settleDrain
        done none).FollowsOn (CloudAudioSegment maxAttempts .drainUploads) from? s₀ s := by
  induction left generalizing from? s₀ s progress with
  | nil =>
    exact ⟨hdrains _ _ ⟨rfl, rfl⟩, fun t reply =>
      ⟨.drainSaves t reply, fun u reply => .settles u reply⟩⟩
  | cons task left ih =>
    have hon := hdrains _ _ ⟨rfl, rfl⟩
    change FollowsOn _ from? s₀ ((Async.bind (if task.assetId ∈ s.cache then _ else _) _) >>= _) s
    split_ifs at hon ⊢ with hcached
    · refine ⟨hon, fun t stored => ?_⟩
      change FollowsOn _ _ t ((Async.bind (if stored.success then _ else _) _) >>= _) t
      split_ifs with hstored
      · refine ⟨.stores t task left progress stored hstored, fun u answer => ?_⟩
        exact ih fun stop v => .answers u task left progress _ answer _ stop v (.answered answer)
      · have hlost : stored.success = false := by simpa using hstored
        exact ih fun stop v => .answers t task left progress _ stored _ stop v (.lost stored hlost)
    · exact ⟨hon, fun t reply => ih fun stop v =>
        .answers t task left progress _ reply _ stop v (.missing reply)⟩

theorem follows_drainUploads (s : CloudAudio) : (drainUploads maxAttempts).FollowsOn
    (CloudAudioSegment maxAttempts .drainUploads) none s s := by
  let begun := if s.queue.draining then s else s.beginDrain
  have hqueue : begun.queue = s.queue := by
    unfold begun
    split_ifs <;> rfl
  change FollowsOn _ none s (onQueue _ (if begun.queue.draining then _ else _) >>= _)
    { begun with queue := begun.queue }
  rw [hqueue]
  split_ifs with hdraining
  · change CloudAudioSegment _ _ _ s _ (if s.queue.draining then _ else _)
    rw [if_pos hdraining]
    exact .drainsAlready s hdraining
  · have hbegun : begun = s.beginDrain := if_neg hdraining
    have hidle : s.queue.draining = false := by simpa using hdraining
    rw [hbegun]
    exact follows_uploads fun stop t ht => .begins s stop t hidle ht

theorem follows_delete (s : CloudAudio) (assetId pieceId : String) : (delete assetId pieceId).FollowsOn
    (CloudAudioSegment maxAttempts (.delete assetId pieceId)) none s s := by
  refine ⟨.deletes s assetId pieceId, fun s gone => ⟨.removes s assetId pieceId gone,
    fun s reply => ⟨.looks s assetId pieceId reply, fun s reply => ?_⟩⟩⟩
  change FollowsOn _ _ s (if assetId ∈ s.cache then _ else _) s
  split_ifs with hcached
  · refine ⟨.finds s assetId pieceId reply hcached, fun s reply => ?_⟩
    change FollowsOn _ _ s (if assetId ∈ s.cache then _ else _) _
    split_ifs
    · exact .evicts s assetId pieceId reply _
    · exact .evicts s assetId pieceId reply _
  · exact .findsNone s assetId pieceId reply hcached

theorem follows_perform (call : CloudAudioCall) (s : CloudAudio) :
    (perform maxAttempts call).FollowsOn (CloudAudioSegment maxAttempts call) none s s := by
  cases call with
  | put path pieceId => exact follows_put s path pieceId
  | drainUploads => exact follows_drainUploads s
  | delete assetId pieceId => exact follows_delete s assetId pieceId

end

end CloudAudio

/-- A call that goes on once its task has been queued is a `put`, and ends. -/
theorem CloudAudioCalls.ends_of_putReturns {maxAttempts : Int} {s : CloudAudioCalls} {i : Nat}
    {call : CloudAudioCall} {point : CloudAudioAwait} {reply : CloudAudioReply}
    {k : CloudAudioReply → CloudAudioProgram (Option String)}
    {stop : Stop CloudAudioAwait String (Option String)} {t : CloudAudio}
    (h : putReturns s i = true) (hrunning : s.running[i]? = some ⟨call, .await point k⟩)
    (hseg : CloudAudioSegment maxAttempts call (some (point, reply)) s.state stop t) :
    (∃ path pieceId, call = .put path pieceId) ∧ ∃ outcome, stop = .ends outcome := by
  cases point with
  | enqueued pieceId assetId =>
    cases hseg with
    | putFails _ path pieceId _ _ error => exact ⟨⟨path, pieceId, rfl⟩, _, rfl⟩
    | returns _ path => exact ⟨⟨path, pieceId, rfl⟩, _, rfl⟩
    | answers _ _ _ _ _ _ _ _ _ hanswers => cases hanswers
  | _ => simp [putReturns, hrunning] at h

end Duet
