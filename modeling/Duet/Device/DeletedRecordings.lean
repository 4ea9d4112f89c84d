import Duet.Device.CloudAudioAssetStore

/-!
# Deleted recordings

A recording that has been deleted does not come back to Storage, as long as no upload of it is on
its way while it is deleted: a `delete` does not look at the queue, and a drain does not look at what
is being deleted.

## Main results

* `inv_step` — what a `delete` has removed is neither in Storage nor under `audio_notes/`.
* `staysDeleted_of_apart` — in a run whose uploads and deletions stay apart, the deleted stay so.
-/

namespace Duet

open Lib Async

namespace CloudAudioCalls

/-! ## What the calls are about -/

/-- The object that a `delete` has removed, until it has returned. -/
def deletingAt : CloudAudioCall → CloudAudioAwait → List Recording
  | .delete assetId pieceId, .objectDeleted => [(pieceId, assetId)]
  | .delete assetId pieceId, .find => [(pieceId, assetId)]
  | .delete assetId pieceId, .deleteFile => [(pieceId, assetId)]
  | _, _ => []

/-- The recording that is on its way to Storage. -/
def uploadingAt : CloudAudioCall → CloudAudioAwait → List Recording
  | _, .upload task _ _ => [(task.pieceId, task.assetId)]
  | _, _ => []

/-- The asset of an upload that has not ended. -/
def inFlightAt : CloudAudioCall → CloudAudioAwait → List String
  | _, .upload task _ _ => [task.assetId]
  | _, .uploaded task _ _ => [task.assetId]
  | _, .missing task _ _ => [task.assetId]
  | _, _ => []

/-- The asset whose recording is being copied. -/
def copyingAt : CloudAudioCall → CloudAudioAwait → List String
  | _, .copy _ assetId => [assetId]
  | _, _ => []

/-- The asset that a `delete` is about. -/
def deleteAt : CloudAudioCall → CloudAudioAwait → List String
  | .delete assetId _, _ => [assetId]
  | _, _ => []

def deleting (s : CloudAudioCalls) : List Recording := s.collect deletingAt

def uploading (s : CloudAudioCalls) : List Recording := s.collect uploadingAt

def inFlight (s : CloudAudioCalls) : List String := s.collect inFlightAt

def copying (s : CloudAudioCalls) : List String := s.collect copyingAt

/-- A `delete` of the recording has returned without a failure. -/
def HasDeleted (s : CloudAudioCalls) (recording : Recording) : Prop :=
  (.delete recording.2 recording.1, .ok none) ∈ s.finished

/-- Once a `delete` has returned, and no upload of the asset is queued or has yet to end, the
recording is not in Storage. -/
def StaysDeleted (s : CloudAudioCalls) : Prop :=
  ∀ recording, HasDeleted s recording → recording.2 ∉ s.state.queue.assetIds →
    recording.2 ∉ inFlight s → recording ∉ s.state.objects

/-- An asset is not deleted before it has been copied, nor before a `put` has come up with its id;
and an object that is to be removed is. -/
def Permits (s : CloudAudioCalls) :
    CloudAudioCall → Option (CloudAudioAwait × CloudAudioReply) → Prop
  | .delete assetId _, none => assetId ∉ copying s
  | _, some (.cacheDir, reply) => audioId reply.now s.state.seq ∉ s.state.deleted
  | _, some (.deleteObject, reply) => reply.success = true
  | _, _ => True

/-- No upload is on its way of a recording whose object a pending `delete` has removed. -/
def Apart (s : CloudAudioCalls) (e : CloudAudioEvent) : Prop :=
  (∀ recording ∈ deleting s, recording ∉ uploading s) ∧
    match e with
    | .call call => Permits s call none
    | .resume i reply => ∀ task ∈ s.running[i]?, ∀ point ∈ task.rest.point?,
        Permits s task.call (some (point, reply))
    | _ => True

instance (s : CloudAudioCalls) (call : CloudAudioCall)
    (from? : Option (CloudAudioAwait × CloudAudioReply)) : Decidable (Permits s call from?) := by
  unfold Permits
  split <;> infer_instance

instance (s : CloudAudioCalls) (e : CloudAudioEvent) : Decidable (Apart s e) :=
  match e with
  | .call call => inferInstanceAs (Decidable (_ ∧ Permits s call none))
  | .resume i reply => inferInstanceAs (Decidable (_ ∧ ∀ task ∈ s.running[i]?,
      ∀ point ∈ task.rest.point?, Permits s task.call (some (point, reply))))
  | .restart => inferInstanceAs (Decidable (_ ∧ True))
  | .connectivity _ => inferInstanceAs (Decidable (_ ∧ True))

/-- What has been deleted is gone, and what is being deleted is on its way. -/
structure Deletions (maxAttempts : Int) (s : CloudAudioCalls) : Prop where
  obeys : s.ObeysOn (CloudAudioSegment maxAttempts)
  asked : ∀ assetId ∈ s.collect deleteAt, assetId ∈ s.state.deleted
  deleted : ∀ recording, HasDeleted s recording → recording.2 ∈ s.state.deleted
  notCopied : ∀ assetId ∈ copying s, assetId ∉ s.state.deleted
  removed : ∀ recording, recording ∈ deleting s ∨ HasDeleted s recording →
    recording ∉ s.state.objects
  evicted : ∀ recording, HasDeleted s recording → recording.2 ∉ s.state.cache
  onTheWay : ∀ recording ∈ uploading s, HasDeleted s recording → recording ∈ deleting s

section

variable {maxAttempts : Int} {s t : CloudAudioCalls} {call : CloudAudioCall}
  {from? : Option (CloudAudioAwait × CloudAudioReply)}
  {stop : Stop CloudAudioAwait String (Option String)} {recording : Recording}

theorem hasDeleted_iff (h : Lib.Isolate.Moves s t call (from?.map Prod.fst) stop) :
    HasDeleted t recording ↔ HasDeleted s recording ∨
      call = .delete recording.2 recording.1 ∧ stop = .ends (.ok none) := by
  rw [HasDeleted, h.finished, List.mem_append, HasDeleted]
  refine or_congr_right ?_
  cases stop with
  | waits point => simp [Stop.outcome?]
  | ends outcome => simp [Stop.outcome?, eq_comm]

attribute [local grind] deletingAt uploadingAt copyingAt deleteAt deleting uploading copying
  Stop.point? CloudAudio.store CloudAudio.remove CloudAudio.accept CloudAudio.addFile
  CloudAudio.hear CloudAudio.beginDrain CloudAudio.settleDrain
attribute [local grind =] Option.elim_some Option.elim_none Option.map_some Option.map_none
attribute [local grind cases] Deletions

/-- A call goes on. -/
theorem Deletions.moves (h : Deletions maxAttempts s)
    (hapart : ∀ recording ∈ deleting s, recording ∉ uploading s) (hpermits : Permits s call from?)
    (hobeys : t.ObeysOn (CloudAudioSegment maxAttempts))
    (hmoves : Lib.Isolate.Moves s t call (from?.map Prod.fst) stop)
    (hseg : CloudAudioSegment maxAttempts call from? s.state stop t.state) :
    Deletions maxAttempts t := by
  have hdone := fun r => (hasDeleted_iff hmoves : HasDeleted t r ↔ _)
  have hasked := fun x => hmoves.mem_iff (f := deleteAt) (x := x)
  have hbefore := hmoves.before deleteAt
  have hcopying := fun x => hmoves.mem_iff (f := copyingAt) (x := x)
  have hdeleting := fun x => hmoves.mem_iff (f := deletingAt) (x := x)
  have hremoving := hmoves.before deletingAt
  have huploading := fun x => hmoves.mem_iff (f := uploadingAt) (x := x)
  generalize ht : t.state = u at hseg
  cases hseg with
  | copies _ _ _ reply =>
    have hfresh : audioId reply.now s.state.seq ∉ s.state.deleted := hpermits
    constructor <;> grind
  | begins _ _ _ _ hdrains =>
    obtain ⟨⟨tasks, rfl⟩, point, rfl, hpoint⟩ := hdrains.stops
    constructor <;> grind
  | answers _ _ _ _ _ _ _ _ _ _ hdrains =>
    obtain ⟨⟨tasks, rfl⟩, point, rfl, hpoint⟩ := hdrains.stops
    constructor <;> grind
  | deletes _ assetId =>
    have hcopied : assetId ∉ copying s := hpermits
    constructor <;> grind
  | removes _ _ _ reply =>
    have hremoved : reply.success = true := hpermits
    constructor <;> grind
  | _ => constructor <;> grind

theorem deletions_start : Deletions maxAttempts start where
  obeys := nofun
  asked := nofun
  deleted := nofun
  notCopied := nofun
  removed _ _ := nofun
  evicted _ _ := nofun
  onTheWay := nofun

/-- The app is killed: what was being deleted may be left as it is. -/
theorem Deletions.restart (h : Deletions maxAttempts s) (hstep : advance maxAttempts s .kill = some t) :
    Deletions maxAttempts t := by
  obtain rfl := Lib.Isolate.kill_step.mp hstep
  exact ⟨nofun, nofun, h.deleted, nofun, fun r hr => h.removed r (.inr (hr.resolve_left nofun)),
    h.evicted, nofun⟩

theorem Deletions.make (h : Deletions maxAttempts s)
    (hapart : ∀ recording ∈ deleting s, recording ∉ uploading s) (hpermits : Permits s call none)
    (hstep : advance maxAttempts s (.call call) = some t) : Deletions maxAttempts t := by
  obtain ⟨hobeys, stop, hseg, hmoves⟩ :=
    Lib.Isolate.obeysOn_call CloudAudio.follows_perform h.obeys hstep
  exact h.moves hapart hpermits hobeys hmoves hseg

theorem inv_step {e : CloudAudioEvent} (h : Deletions maxAttempts s) (hapart : Apart s e)
    (hstep : step maxAttempts s e = some t) : Deletions maxAttempts t := by
  obtain ⟨hapart, hpermits⟩ := hapart
  cases e with
  | call call => exact h.make hapart hpermits hstep
  | restart => exact h.restart hstep
  | connectivity online =>
    obtain rfl := Option.some.inj hstep
    exact ⟨h.obeys, h.asked, h.deleted, h.notCopied, h.removed, h.evicted, h.onTheWay⟩
  | resume i reply =>
    obtain ⟨u, hu, hstep⟩ := Option.bind_eq_some_iff.mp hstep
    obtain ⟨hobeys, call, point, k, stop, hrunning, hseg, hmoves⟩ :=
      Lib.Isolate.obeysOn_resume CloudAudio.follows_perform h.obeys hu
    have hresumed : Deletions maxAttempts u :=
      h.moves hapart (hpermits _ hrunning point rfl) hobeys hmoves hseg
    split_ifs at hstep with hreturns
    · obtain ⟨⟨path, pieceId, rfl⟩, outcome, rfl⟩ := ends_of_putReturns hreturns hrunning hseg
      have hdrain : Permits u .drainUploads none := trivial
      refine hresumed.make (fun recording hdeleting huploading => ?_) hdrain hstep
      -- a `put` that returns is about nothing that is deleted or uploaded
      have hdeleting' := (hmoves.mem_iff (f := deletingAt)).mp (.inl hdeleting)
      have huploading' := (hmoves.mem_iff (f := uploadingAt)).mp (.inl huploading)
      exact hapart recording (hdeleting'.resolve_right nofun) (huploading'.resolve_right nofun)
    · obtain rfl := Option.some.inj hstep
      exact hresumed

/-- In a run whose uploads and deletions stay apart, what has been deleted stays so, in every state it
visits. -/
theorem staysDeleted_of_apart {events : List CloudAudioEvent}
    (h : EachStep (step maxAttempts) Apart start events) :
    Always (step maxAttempts) StaysDeleted start events :=
  .of_invariant (fun _ _ _ h hapart hstep => inv_step h hapart hstep)
    (fun _ h recording hdeleted _ _ => h.removed recording (.inr hdeleted)) deletions_start h

end

/-- What comes back when all goes well, on the first of January 1970. -/
def fine : CloudAudioReply := ⟨true, .sinceEpoch 0⟩

/-- A recording is put, and uploaded by the drain that `put` begins. -/
def putsRecording : List CloudAudioEvent :=
  .call (.put "take.m4a" "p") :: List.replicate 5 (.resume 0 fine)

/-- It is deleted once it has been uploaded. -/
def deletesLater : List CloudAudioEvent :=
  putsRecording ++ List.replicate 4 (.resume 0 fine) ++
    .call (.delete "audio_0_0" "p") :: List.replicate 4 (.resume 0 fine)

theorem staysDeleted_deletesLater : Always (step 5) StaysDeleted start deletesLater :=
  staysDeleted_of_apart (by decide +kernel)

/-- It is deleted while it is on its way. -/
def deletesAtOnce : List CloudAudioEvent :=
  putsRecording ++ .call (.delete "audio_0_0" "p") :: .resume 1 fine ::
    List.replicate 7 (.resume 0 fine)

/-- The upload brings it back. -/
theorem not_staysDeleted :
    ¬∀ events, Always (step 5) StaysDeleted start events := by
  intro h
  have hruns : ((run (step 5) start deletesAtOnce).any fun s =>
      decide ((.delete "audio_0_0" "p", .ok none) ∈ s.finished) &&
        decide ("audio_0_0" ∉ s.state.queue.assetIds) && decide ("audio_0_0" ∉ inFlight s) &&
          decide (("p", "audio_0_0") ∈ s.state.objects)) = true := by decide +kernel
  obtain ⟨s, hrun, hs⟩ := (Option.any_eq_true _ _).mp hruns
  simp only [Bool.and_eq_true, decide_eq_true_eq] at hs
  obtain ⟨⟨⟨hdeleted, hqueue⟩, hflight⟩, hobject⟩ := hs
  exact (h deletesAtOnce).last hrun ("p", "audio_0_0") hdeleted hqueue hflight hobject

end CloudAudioCalls

end Duet
