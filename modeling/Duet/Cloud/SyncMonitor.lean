import Duet.Device.AudioUploadQueue
import Duet.Lib.Transition
import Mathlib.Data.List.Chain

/-!
# The sync badge

A watch of `FirestorePieceSyncMonitor` folds the signals of two collections and the depth of the
upload queue into one state. The depths come over a broadcast stream: the queue adds its depth when
the first listener comes, and the length of every list it has saved once the save has completed.

## Main definitions

* `pieceSyncStateFrom`, `SyncWatch.emit` — the state, and what a watch emits.
* `SyncMonitor.step` — watches come and go, signals and depths arrive, and the queue is saved.

## Main results

* `inv_step` — once the saves have completed, the last depth of every watch tells whether the queue is
  empty.
* `truthful_of_hearsDepth` — a badge that rests shows the latest signals and the queue, in a run whose
  watches hear of the depth and whose saves complete in order.
-/

namespace Duet

open Lib

inductive PieceSyncState where
  | synced | syncing | offline
  deriving DecidableEq, Repr

structure SyncSignal where
  isFromCache : Bool
  hasPendingWrites : Bool
  deriving DecidableEq, Repr

/-- What a source that fails is taken for. -/
def sourceErrorSignal : SyncSignal := ⟨true, false⟩

def pieceSyncStateFrom (pending offline : Bool) : PieceSyncState :=
  if pending then .syncing else if offline then .offline else .synced

/-! ## One watch -/

inductive SyncSource where
  | layers | notes
  deriving DecidableEq, Repr

/-- The latest signals and depth, what has been emitted, whether somebody listens, whether the watch
listens to the queue, and the depths that have been added for it and not been delivered. -/
structure SyncWatch where
  latestLayers : Option SyncSignal
  latestNotes : Option SyncSignal
  latestDepth : Nat
  lastEmitted : Option PieceSyncState
  emitted : List PieceSyncState
  listening : Bool
  subscribed : Bool
  depths : List Nat
  deriving DecidableEq, Repr

namespace SyncWatch

/-- A watch that has just been listened to. -/
def opened (depths : List Nat) : SyncWatch := ⟨none, none, 0, none, [], true, true, depths⟩

/-- The state of two signals, and of whether uploads are queued. -/
def stateOf (layers notes : SyncSignal) (queued : Bool) : PieceSyncState :=
  pieceSyncStateFrom (layers.hasPendingWrites || notes.hasPendingWrites || queued)
    (layers.isFromCache || notes.isFromCache)

def emit (w : SyncWatch) : SyncWatch :=
  match w.latestLayers, w.latestNotes with
  | some layers, some notes =>
    let state := stateOf layers notes (w.latestDepth > 0)
    if some state = w.lastEmitted then w
    else
      { w with
        lastEmitted := some state
        emitted := if w.listening then w.emitted ++ [state] else w.emitted }
  | _, _ => w

/-- A signal of a source, or its error. -/
def onSignal (w : SyncWatch) (source : SyncSource) (signal : Option SyncSignal) : SyncWatch :=
  let signal := signal.getD sourceErrorSignal
  match source with
  | .layers => emit { w with latestLayers := some signal }
  | .notes => emit { w with latestNotes := some signal }

/-- A depth is delivered. -/
def onDepth (w : SyncWatch) : SyncWatch :=
  match w.depths with
  | [] => w
  | depth :: depths => emit { w with latestDepth := depth, depths := depths }

/-- The queue adds a depth. -/
def add (depth : Nat) (w : SyncWatch) : SyncWatch :=
  if w.subscribed then { w with depths := w.depths ++ [depth] } else w

end SyncWatch

/-! ## All watches over one queue -/

/-- The queue, the lists whose saves have not completed, oldest first, and the watches. -/
structure SyncMonitor where
  tasks : List AudioUploadTask
  saves : List (List AudioUploadTask)
  watches : List SyncWatch
  deriving DecidableEq, Repr

inductive SyncEvent where
  | watch
  | signal (i : Nat) (source : SyncSource) (signal : Option SyncSignal)
  | depth (i : Nat)
  | cancel (i : Nat)
  | cancelled (i : Nat)
  | save (tasks : List AudioUploadTask)
  | saved (i : Nat)
  deriving DecidableEq, Repr

namespace SyncMonitor

/-- Nobody watches, and nothing is being saved. -/
def start (tasks : List AudioUploadTask) : SyncMonitor := ⟨tasks, [], []⟩

/-- Somebody listens to the queue. -/
def hasListener (s : SyncMonitor) : Bool := s.watches.any (·.subscribed)

/-- A change of the `i`-th watch, which must be as `enabled` says. -/
def change (s : SyncMonitor) (i : Nat) (enabled : SyncWatch → Bool) (f : SyncWatch → SyncWatch) :
    Option SyncMonitor :=
  match s.watches[i]? with
  | some w => if enabled w then some { s with watches := s.watches.set i (f w) } else none
  | none => none

/-- One event. A watch that is cancelled emits nothing more, and stops listening to the queue after
its other sources. -/
def step (s : SyncMonitor) : SyncEvent → Option SyncMonitor
  | .watch =>
    let depths := if s.hasListener then [] else [s.tasks.length]
    some { s with watches := s.watches ++ [.opened depths] }
  | .signal i source signal => s.change i (·.listening) (·.onSignal source signal)
  | .depth i => s.change i (fun w => w.subscribed && !w.depths.isEmpty) (·.onDepth)
  | .cancel i => s.change i (·.listening) fun w => { w with listening := false }
  | .cancelled i => s.change i (fun w => w.subscribed && !w.listening) fun w =>
      { w with subscribed := false, depths := [] }
  | .save tasks => some { s with tasks := tasks, saves := s.saves ++ [tasks] }
  | .saved i => s.saves[i]?.map fun tasks =>
      { s with saves := s.saves.eraseIdx i, watches := s.watches.map (·.add tasks.length) }

end SyncMonitor

/-! ## What is to hold -/

/-- A watch emits nothing before both signals and never a state twice in a row; and at rest, when no
depth is to be delivered, its last state is that of its latest signals and of the queue. -/
structure SyncWatch.Truthful (w : SyncWatch) (tasks : List AudioUploadTask) (atRest : Prop) : Prop where
  waits : w.emitted ≠ [] → w.latestLayers.isSome ∧ w.latestNotes.isSome
  changes : w.emitted.IsChain (· ≠ ·)
  rests : atRest → w.listening = true → w.depths = [] → ∀ layers ∈ w.latestLayers,
    ∀ notes ∈ w.latestNotes, w.emitted.getLast? = some (stateOf layers notes !tasks.isEmpty)

namespace SyncMonitor

/-- Every badge tells the truth; it is at rest when every save has completed. -/
def Truthful (s : SyncMonitor) : Prop := ∀ w ∈ s.watches, w.Truthful s.tasks (s.saves = [])

/-- A watch is the only one that listens to the queue when it begins, or the queue is empty, or a save
that has not completed will tell it; and the last save completes after the others. -/
def HearsDepth (s : SyncMonitor) : SyncEvent → Prop
  | .watch => s.hasListener = false ∨ s.tasks = [] ∨ s.saves ≠ []
  | .saved i => i + 1 = s.saves.length → i = 0
  | _ => True

instance (s : SyncMonitor) (event : SyncEvent) : Decidable (s.HearsDepth event) := by
  unfold HearsDepth
  split <;> infer_instance

end SyncMonitor

/-! ## What a watch has emitted -/

namespace SyncWatch

/-- The last state is that of the latest signals and depth, once there are both signals. -/
structure Shows (w : SyncWatch) : Prop where
  shown : ∀ layers ∈ w.latestLayers, ∀ notes ∈ w.latestNotes,
    w.lastEmitted = some (stateOf layers notes (w.latestDepth > 0))
  waits : w.emitted ≠ [] → w.latestLayers.isSome ∧ w.latestNotes.isSome
  changes : w.emitted.IsChain (· ≠ ·)
  last : w.listening = true → w.emitted.getLast? = w.lastEmitted
  subscribed : w.listening = true → w.subscribed = true

variable {w : SyncWatch}

theorem shows_opened (depths : List Nat) : (opened depths).Shows where
  shown := nofun
  waits h := absurd rfl h
  changes := .nil
  last _ := rfl
  subscribed _ := rfl

/-- What is emitted when it differs from what was emitted last. -/
theorem shows_emit (hwaits : w.emitted ≠ [] → w.latestLayers.isSome ∧ w.latestNotes.isSome)
    (hchanges : w.emitted.IsChain (· ≠ ·))
    (hlast : w.listening = true → w.emitted.getLast? = w.lastEmitted)
    (hsubscribed : w.listening = true → w.subscribed = true) : w.emit.Shows := by
  unfold emit
  split
  · next layers notes hlayers hnotes =>
    dsimp only
    split_ifs with hsame hlistening
    · refine ⟨?_, hwaits, hchanges, hlast, hsubscribed⟩
      rw [hlayers, hnotes]
      rintro _ ⟨⟩ _ ⟨⟩
      exact hsame.symm
    · refine ⟨?_, fun _ => ⟨by simp [hlayers], by simp [hnotes]⟩, ?_, fun _ => ?_, hsubscribed⟩
      · rw [hlayers, hnotes]
        rintro _ ⟨⟩ _ ⟨⟩
        rfl
      · rw [List.isChain_append]
        refine ⟨hchanges, .singleton _, fun last hmem next hnext => ?_⟩
        rw [hlast hlistening] at hmem
        obtain rfl := Option.some.inj hnext
        rintro rfl
        exact hsame hmem.symm
      · exact List.getLast?_concat
    · refine ⟨?_, hwaits, hchanges, fun h => absurd h hlistening, hsubscribed⟩
      rw [hlayers, hnotes]
      rintro _ ⟨⟩ _ ⟨⟩
      rfl
  · next hmissing =>
    refine ⟨fun layers hlayers notes hnotes => ?_, hwaits, hchanges, hlast, hsubscribed⟩
    exact absurd hnotes (hmissing layers notes hlayers)

/-- The depth that the watch will have once everything has been delivered. -/
def heard (w : SyncWatch) : Nat := w.depths.getLast?.getD w.latestDepth

/-- `emit` only changes what has been emitted. -/
theorem emit_eq (w : SyncWatch) : ∃ lastEmitted emitted,
    w.emit = { w with lastEmitted := lastEmitted, emitted := emitted } := by
  unfold emit
  split
  · dsimp only
    split_ifs <;> exact ⟨_, _, rfl⟩
  · exact ⟨_, _, rfl⟩

theorem heard_emit (w : SyncWatch) : w.emit.heard = w.heard := by
  obtain ⟨_, _, h⟩ := w.emit_eq
  rw [h]
  rfl

theorem subscribed_emit (w : SyncWatch) : w.emit.subscribed = w.subscribed := by
  obtain ⟨_, _, h⟩ := w.emit_eq
  rw [h]

theorem Shows.onSignal (h : w.Shows) (source : SyncSource) (signal : Option SyncSignal) :
    (w.onSignal source signal).Shows := by
  cases source with
  | layers => exact shows_emit (fun he => ⟨rfl, (h.waits he).2⟩) h.changes h.last h.subscribed
  | notes => exact shows_emit (fun he => ⟨(h.waits he).1, rfl⟩) h.changes h.last h.subscribed

theorem heard_onSignal (source : SyncSource) (signal : Option SyncSignal) :
    (w.onSignal source signal).heard = w.heard ∧
      (w.onSignal source signal).subscribed = w.subscribed := by
  cases source <;> exact ⟨heard_emit _, subscribed_emit _⟩

theorem Shows.onDepth (h : w.Shows) : w.onDepth.Shows := by
  unfold SyncWatch.onDepth
  split
  · exact h
  · exact shows_emit h.waits h.changes h.last h.subscribed

theorem heard_onDepth : w.onDepth.heard = w.heard ∧ w.onDepth.subscribed = w.subscribed := by
  unfold onDepth
  split
  · exact ⟨rfl, rfl⟩
  · next depth depths hdepths =>
    refine ⟨?_, subscribed_emit _⟩
    rw [heard_emit, heard, heard, hdepths, List.getLast?_cons, Option.getD_some]

theorem Shows.add (h : w.Shows) (depth : Nat) : (w.add depth).Shows := by
  unfold SyncWatch.add
  split_ifs
  · exact { h with }
  · exact h

theorem heard_add {depth : Nat} (h : (w.add depth).subscribed = true) :
    (w.add depth).heard = depth := by
  unfold SyncWatch.add at h ⊢
  split_ifs at h ⊢
  · simp [heard]
  · contradiction

end SyncWatch

/-! ## Runs -/

namespace SyncMonitor

/-- The newest save is the queue; once every save has completed, what a watch hears last tells whether
the queue is empty. -/
structure Inv (s : SyncMonitor) : Prop where
  shows : ∀ w ∈ s.watches, w.Shows
  newest : ∀ tasks ∈ s.saves.getLast?, tasks = s.tasks
  hears : s.saves = [] → ∀ w ∈ s.watches, w.subscribed = true → (0 < w.heard ↔ s.tasks ≠ [])

variable {s t : SyncMonitor}

theorem inv_start (tasks : List AudioUploadTask) : (start tasks).Inv where
  shows := nofun
  newest := nofun
  hears _ := nofun

theorem Inv.truthful (h : s.Inv) : s.Truthful := by
  intro w hw
  have hshows := h.shows w hw
  refine ⟨hshows.waits, hshows.changes, fun hrest hlistening hdepths layers hlayers notes hnotes => ?_⟩
  have hheard := h.hears hrest w hw (hshows.subscribed hlistening)
  rw [SyncWatch.heard, hdepths] at hheard
  rw [hshows.last hlistening, hshows.shown layers hlayers notes hnotes]
  congr 2
  cases htasks : s.tasks with
  | nil => simpa [htasks] using hheard
  | cons task tasks => simpa [htasks] using hheard

/-- A change of one watch that keeps what it shows, and what it hears while it listens to the queue. -/
theorem Inv.change {i : Nat} {enabled : SyncWatch → Bool} {f : SyncWatch → SyncWatch} (h : s.Inv)
    (hshows : ∀ w : SyncWatch, enabled w = true → w.Shows → (f w).Shows)
    (hheard : ∀ w : SyncWatch, (f w).subscribed = true → w.subscribed = true ∧ (f w).heard = w.heard)
    (hstep : s.change i enabled f = some t) : t.Inv := by
  unfold SyncMonitor.change at hstep
  split at hstep
  · next w hw =>
    split_ifs at hstep with henabled
    obtain rfl := Option.some.inj hstep
    have hmem := List.mem_of_getElem? hw
    refine ⟨fun w' hw' => ?_, h.newest, fun hrest w' hw' hsubscribed => ?_⟩
    · obtain hold | rfl := List.mem_or_eq_of_mem_set hw'
      · exact h.shows w' hold
      · exact hshows w henabled (h.shows w hmem)
    · obtain hold | rfl := List.mem_or_eq_of_mem_set hw'
      · exact h.hears hrest w' hold hsubscribed
      · obtain ⟨hbefore, hsame⟩ := hheard w hsubscribed
        rw [hsame]
        exact h.hears hrest w hmem hbefore
  · cases hstep

theorem inv_step {event : SyncEvent} (h : s.Inv) (hears : s.HearsDepth event)
    (hstep : s.step event = some t) : t.Inv := by
  cases event with
  | watch =>
    obtain rfl := Option.some.inj hstep
    refine ⟨fun w hw => ?_, h.newest, fun hrest w hw hsubscribed => ?_⟩
    · obtain hold | hnew := List.mem_append.mp hw
      · exact h.shows w hold
      · obtain rfl := List.mem_singleton.mp hnew
        exact SyncWatch.shows_opened _
    · obtain hold | hnew := List.mem_append.mp hw
      · exact h.hears hrest w hold hsubscribed
      · obtain rfl := List.mem_singleton.mp hnew
        obtain hnone | hempty | hsaves := hears
        · simp [hnone, SyncWatch.heard, SyncWatch.opened, List.length_pos_iff]
        · split_ifs <;> simp [hempty, SyncWatch.heard, SyncWatch.opened]
        · exact absurd hrest hsaves
  | signal i source signal =>
    refine h.change (fun w _ hw => hw.onSignal source signal) (fun w hw => ?_) hstep
    obtain ⟨hheard, hsubscribed⟩ := w.heard_onSignal source signal
    exact ⟨hsubscribed ▸ hw, hheard⟩
  | depth i =>
    refine h.change (fun w _ hw => hw.onDepth) (fun w hw => ?_) hstep
    obtain ⟨hheard, hsubscribed⟩ := w.heard_onDepth
    exact ⟨hsubscribed ▸ hw, hheard⟩
  | cancel i =>
    have hstep : s.change i (·.listening) (fun w => { w with listening := false }) = some t := hstep
    refine h.change (fun w _ hw => ?_) (fun w hw => ?_) hstep
    · exact ⟨hw.shown, hw.waits, hw.changes, by simp, by simp⟩
    · exact ⟨hw, rfl⟩
  | cancelled i =>
    have hstep : s.change i (fun w => w.subscribed && !w.listening)
      (fun w => { w with subscribed := false, depths := [] }) = some t := hstep
    refine h.change (fun w henabled hw => ?_) (fun w hw => by simp at hw) hstep
    have hgone : w.listening = false := by simp_all
    exact ⟨hw.shown, hw.waits, hw.changes, hw.last, by simp [hgone]⟩
  | save tasks =>
    obtain rfl := Option.some.inj hstep
    refine ⟨h.shows, fun newest hnewest => ?_, fun hrest => by simp at hrest⟩
    rw [List.getLast?_concat] at hnewest
    exact (Option.some.inj hnewest).symm
  | saved i =>
    obtain ⟨tasks, hi, rfl⟩ := Option.map_eq_some_iff.mp hstep
    have hlt := (List.getElem?_eq_some_iff.mp hi).1
    refine ⟨fun w hw => ?_, fun newest hnewest => ?_, fun hrest w hw hsubscribed => ?_⟩
    · obtain ⟨w', hw', rfl⟩ := List.mem_map.mp hw
      exact (h.shows w' hw').add _
    · -- the newest save completes alone
      refine h.newest newest ?_
      by_cases hlast : i + 1 = s.saves.length
      · obtain rfl := hears hlast
        have hnil : s.saves.eraseIdx 0 = [] :=
          List.eq_nil_of_length_eq_zero (by rw [List.length_eraseIdx_of_lt hlt]; omega)
        rw [hnil] at hnewest
        cases hnewest
      · rw [List.getLast?_eq_getElem?] at hnewest ⊢
        rw [List.length_eraseIdx_of_lt hlt, List.getElem?_eraseIdx_of_ge (by omega)] at hnewest
        rwa [show s.saves.length - 1 - 1 + 1 = s.saves.length - 1 by omega] at hnewest
    · obtain ⟨w', hw', rfl⟩ := List.mem_map.mp hw
      have hlength := congrArg List.length hrest
      rw [List.length_eraseIdx_of_lt hlt, List.length_nil] at hlength
      have hlast : s.saves.getLast? = some tasks := by
        rw [List.getLast?_eq_getElem?, show s.saves.length - 1 = i by omega, hi]
      rw [SyncWatch.heard_add hsubscribed, h.newest tasks hlast, List.length_pos_iff]

/-- In a run whose watches hear of the depth and whose last saves complete last, every badge that rests
shows the latest signals and the queue. -/
theorem truthful_of_hearsDepth (tasks : List AudioUploadTask) {events : List SyncEvent}
    (h : EachStep step HearsDepth (start tasks) events) :
    Always step Truthful (start tasks) events :=
  Always.of_invariant (fun _ _ _ hinv hears hstep => inv_step hinv hears hstep)
    (fun _ hinv => hinv.truthful) (inv_start tasks) h

/-- A recording that is still to be uploaded. -/
def recording : AudioUploadTask := ⟨"etude", "a1", "/tmp/a1.m4a", 0⟩

def clean : Option SyncSignal := some ⟨false, false⟩

/-- One watch shows the upload of a recording, and a later one begins when it has been uploaded. -/
def uploaded : List SyncEvent :=
  [.watch, .signal 0 .layers clean, .signal 0 .notes clean, .save [recording], .saved 0, .depth 0,
    .depth 0, .save [], .saved 0, .depth 0, .watch, .signal 1 .layers clean, .signal 1 .notes none]

theorem truthful_of_hearsDepth_uploaded : Always step Truthful (start []) uploaded :=
  truthful_of_hearsDepth [] (by decide +kernel)

/-- Two watches begin while a recording is queued. -/
def secondWatch : List SyncEvent :=
  [.watch, .watch, .signal 1 .layers clean, .signal 1 .notes clean]

/-- The second one rests on `synced`. -/
theorem not_truthful : ∃ t, run step (start [recording]) secondWatch = some t ∧ ¬t.Truthful := by
  have hrun : (run step (start [recording]) secondWatch).map (fun t =>
      (t.tasks, t.saves, t.watches[1]?)) = some ([recording], [],
        some ⟨some ⟨false, false⟩, some ⟨false, false⟩, 0, some .synced, [.synced], true, true, []⟩) := by
    decide +kernel
  obtain ⟨t, ht, hstate⟩ := Option.map_eq_some_iff.mp hrun
  simp only [Prod.mk.injEq] at hstate
  obtain ⟨htasks, hsaves, hwatch⟩ := hstate
  refine ⟨t, ht, fun h => ?_⟩
  have hrests := (h _ (List.mem_of_getElem? hwatch)).rests hsaves rfl rfl _ rfl _ rfl
  rw [htasks] at hrests
  cases hrests

end SyncMonitor

end Duet
