import Duet.Score.Bloc

/-!
# One piece at a time

The score view opens pieces one after another, and `ScoreBloc` keeps one state for all of them. An
open reads the piece, its base PDF and the watermark in turn, while others may go on; when it is
done it takes over what the state holds of pieces opened before.

## Main definitions

* `ScoreSession.Isolated` — what the state holds is of one piece, the last one opened.
* `ScoreHistory` — which opens have become ready, and what has been shown, drawn and read in a run.
* `Scores.InTurn` — a piece becomes ready after no other one has left anything.

## Main results

* `ScoreSegment.recorded` — the state holds nothing but what the history has.
* `Scores.isolated_of_inTurn` — in a run whose pieces become ready in turn, the state is isolated
  whenever a piece is ready and no open is pending.
-/

namespace Duet

open Lib Async

namespace ScoreSession

/-- Layers and notes are those of the snapshot that is shown, or there are none. -/
def ShowsShown (s : ScoreSession) : Prop :=
  match s.shown with
  | none => s.layers = [] ∧ s.notes = []
  | some annotations => s.notes = annotations.audioNotes ∧
      ∀ layer ∈ s.layers, layer.strokes = strokesForOwner annotations layer.ownerId

/-- The state holds one piece, which is the last one opened; it shows nothing but annotations of the
piece, would undo nothing but strokes added to it, has the watermark that was read for it, and
listens to it alone. -/
structure Isolated (s : ScoreSession) (piece : Piece) : Prop where
  ready : s.piece = some piece
  last : s.opens.getLast? = some piece.id
  shows : s.ShowsShown ∧ ∀ annotations ∈ s.shown, annotations.pieceId = piece.id
  strokes : ∀ stroke ∈ s.undoStack, .issued (.addStroke piece.id stroke) ∈ s.log
  watermark : s.state.lastOpenedAt = s.watermark
  subscribed : ∃ n, s.active = [(n, piece.id)]

/-- A piece that becomes ready with nothing left of another one. -/
theorem isolated_opened {s : ScoreSession} {piece : Piece} (h : s.ShowsShown) (n : Nat)
    (lastOpenedAt : Option DateTime) (hlast : s.opens.getLast? = some piece.id)
    (hshown : ∀ annotations ∈ s.shown, annotations.pieceId = piece.id)
    (hstrokes : ∀ stroke ∈ s.undoStack, .issued (.addStroke piece.id stroke) ∈ s.log)
    (hnone : lastOpenedAt = none → s.state.lastOpenedAt = none) (hactive : s.active = []) :
    (s.opened n piece lastOpenedAt).Isolated piece where
  ready := rfl
  last := hlast
  shows := ⟨h, hshown⟩
  strokes := hstrokes
  watermark := by
    cases lastOpenedAt with
    | none => simp [opened, hnone rfl]
    | some time => rfl
  subscribed := ⟨n, by simp [opened, hactive]⟩

theorem updated_of_some {s : ScoreSession} {piece : Piece} (h : s.piece = some piece)
    (annotations : PieceAnnotations) : s.updated annotations = { s with
      layers := projectLayers piece annotations s.state
      notes := annotations.audioNotes
      shown := some annotations } := by
  obtain ⟨⟨piece', state, layers, notes⟩⟩ := s
  obtain rfl : piece' = some piece := h
  rfl

theorem updated_of_none {s : ScoreSession} (h : s.piece = none) (annotations : PieceAnnotations) :
    s.updated annotations = s := by
  rw [updated, h]

section

variable (s : ScoreSession) (annotations : PieceAnnotations)

@[simp] theorem status_updated : (s.updated annotations).status = s.status := by
  unfold updated
  split <;> rfl

@[simp] theorem opens_updated : (s.updated annotations).opens = s.opens := by
  unfold updated
  split <;> rfl

@[simp] theorem active_updated : (s.updated annotations).active = s.active := by
  unfold updated
  split <;> rfl

@[simp] theorem annotationsSubscription_updated :
    (s.updated annotations).annotationsSubscription = s.annotationsSubscription := by
  unfold updated
  split <;> rfl

@[simp] theorem undoStack_updated : (s.updated annotations).undoStack = s.undoStack := by
  unfold updated
  split <;> rfl

@[simp] theorem log_updated : (s.updated annotations).log = s.log := by
  unfold updated
  split <;> rfl

@[simp] theorem state_updated : (s.updated annotations).state = s.state := by
  cases hpiece : s.piece with
  | none => rw [updated_of_none hpiece]
  | some piece => rw [updated_of_some hpiece]

end

theorem showsShown_updated {s : ScoreSession} (h : s.ShowsShown) (annotations : PieceAnnotations) :
    (s.updated annotations).ShowsShown := by
  cases hpiece : s.piece with
  | none => rwa [updated_of_none hpiece]
  | some piece =>
    rw [updated_of_some hpiece]
    exact ⟨rfl, fun layer => strokes_of_mem_projectLayers⟩

/-- A snapshot of the piece keeps the state isolated. -/
theorem Isolated.updated {s : ScoreSession} {piece : Piece} (h : s.Isolated piece)
    {annotations : PieceAnnotations} (added : List PieceAnnotations)
    (hpiece : annotations.pieceId = piece.id) :
    Isolated { s.updated annotations with added := added } piece := by
  rw [updated_of_some h.ready]
  refine ⟨h.ready, h.last, ⟨⟨rfl, fun layer => strokes_of_mem_projectLayers⟩, ?_⟩, h.strokes,
    h.watermark, h.subscribed⟩
  rintro _ ⟨⟩
  exact hpiece

/-- Drawing and undoing keep a state isolated. -/
theorem Isolated.redrawn {s : ScoreSession} {piece : Piece} (h : s.Isolated piece) (mode : ScoreMode)
    {undoStack : List InkStroke} (error : Option String) (strokeSeq : Nat)
    (added : List PieceAnnotations) {log : List StrokeLog}
    (hstrokes : ∀ stroke ∈ undoStack, .issued (.addStroke piece.id stroke) ∈ log) :
    Isolated { s with
      mode := mode
      undoStack := undoStack
      error := error
      strokeSeq := strokeSeq
      added := added
      log := log } piece :=
  ⟨h.ready, h.last, h.shows, hstrokes, h.watermark, h.subscribed⟩

end ScoreSession

/-! ## Opens that run -/

/-- The number of the open that awaits, and the id of its piece. -/
def ScoreAwait.target? : ScoreAwait → Option (Nat × String)
  | cancel n pieceId | getPiece n pieceId => some (n, pieceId)
  | resolveBasePdf n piece | readWatermark n piece => some (n, piece.id)
  | stroke _ => none

/-- The number of the open that awaits. -/
def ScoreAwait.open? : ScoreAwait → Option Nat
  | cancel n _ | getPiece n _ | resolveBasePdf n _ | readWatermark n _ => some n
  | stroke _ => none

/-- The open of a number awaits here. -/
def ScoreAwait.isOpen (n : Nat) (point : ScoreAwait) : Bool := point.open?.any fun m => m + 1 == n

/-! ## The history of a run -/

/-- What has happened: how many pieces had been opened when one became ready last; whether two of
them have become ready with none opened between them; whether a watermark has been read; of which
piece the snapshot is that was handled last; and the pieces on which strokes have been completed
since the undo stack was empty. -/
structure ScoreHistory where
  called : Nat
  doubled : Bool
  marked : Bool
  ink : Option String
  strokes : List String

namespace ScoreHistory

/-- Nothing has happened. -/
def empty : ScoreHistory := ⟨0, false, false, none, []⟩

def noteReady (k : ScoreHistory) (s : ScoreSession) :
    Option (ScoreAwait × ScoreReply) → ScoreHistory
  | some (.readWatermark _ piece, .reads reads) => { k with
      called := s.opens.length
      doubled := k.doubled || k.called == s.opens.length
      marked := k.marked || (reads.bind fun map => map.get piece.id).isSome }
  | _ => k

def noteInk (ink : Option String) (s : ScoreSession) :
    ScoreEvent → Option (ScoreAwait × ScoreReply) → Option String
  | .annotationsUpdated, none =>
    match s.piece, s.added with
    | some _, annotations :: _ => some annotations.pieceId
    | _, _ => ink
  | _, _ => ink

def noteStrokes (strokes : List String) (s t : ScoreSession) : List String :=
  if t.undoStack = [] then []
  else if s.undoStack.length < t.undoStack.length then strokes ++ s.piece.toList.map (·.id)
  else strokes

/-- A handler of `c` begins, or goes on with what comes back, in `s`, and stops in `t`. -/
def note (k : ScoreHistory) (c : ScoreEvent) (from? : Option (ScoreAwait × ScoreReply))
    (s t : ScoreSession) : ScoreHistory :=
  { k.noteReady s from? with
    ink := noteInk k.ink s c from?
    strokes := noteStrokes k.strokes s t }

/-- A piece may become ready with a watermark: its open was called last, and another one since a
piece became ready; no snapshot of another piece is shown or waits, no stroke on another one can be
undone; and no watermark has been read if it has none. -/
def Admits (k : ScoreHistory) (s : ScoreSession) (n : Nat) (piece : Piece)
    (lastOpenedAt : Option DateTime) : Prop :=
  n + 1 = s.opens.length ∧ k.doubled = false ∧ k.called ≠ s.opens.length ∧
    (∀ id ∈ k.ink, id = piece.id) ∧ (∀ annotations ∈ s.added, annotations.pieceId = piece.id) ∧
      (∀ id ∈ k.strokes, id = piece.id) ∧ (lastOpenedAt = none → k.marked = false)

instance (k : ScoreHistory) (s : ScoreSession) (n : Nat) (piece : Piece)
    (lastOpenedAt : Option DateTime) : Decidable (k.Admits s n piece lastOpenedAt) := by
  unfold Admits
  infer_instance

/-- What is asked of a segment in which a piece becomes ready. -/
def AdmitsAt (k : ScoreHistory) (s : ScoreSession) : Option (ScoreAwait × ScoreReply) → Prop
  | some (.readWatermark n piece, .reads reads) =>
      k.Admits s n piece (reads.bind fun map => map.get piece.id)
  | _ => True

instance (k : ScoreHistory) (s : ScoreSession) (from? : Option (ScoreAwait × ScoreReply)) :
    Decidable (k.AdmitsAt s from?) := by
  unfold AdmitsAt
  split <;> infer_instance

end ScoreHistory

namespace ScoreSession

/-- At most the subscription that is known is active, and nothing has been opened since it was
made. -/
def Subscribed (s : ScoreSession) (called : Nat) : Prop :=
  s.active = [] ∨ called = s.opens.length ∧
    ∃ subscription, s.active = [subscription] ∧ s.annotationsSubscription = some subscription.1

/-- The state holds nothing but what the history has. -/
structure Recorded (s : ScoreSession) (k : ScoreHistory) : Prop where
  shows : s.ShowsShown
  ink : s.shown.map (·.pieceId) = k.ink
  strokes : ∀ stroke ∈ s.undoStack, ∃ id ∈ k.strokes, .issued (.addStroke id stroke) ∈ s.log
  marked : k.marked = false → s.state.lastOpenedAt = none
  called : k.called ≤ s.opens.length
  subscribed : k.doubled = false → s.Subscribed k.called

theorem recorded_initial (currentUserId : String) : (initial currentUserId).Recorded .empty where
  shows := ⟨rfl, rfl⟩
  ink := rfl
  strokes := nofun
  marked _ := rfl
  called := Nat.le_refl _
  subscribed _ := .inl rfl

/-- Opening cancels the subscription that is known, so that none is left. -/
theorem Subscribed.opening {s : ScoreSession} {called : Nat} (h : s.Subscribed called)
    (pieceId : String) : (s.opening pieceId).active = [] := by
  obtain hnone | ⟨-, subscription, hactive, hknown⟩ := h
  · simp [ScoreSession.opening, hnone]
  · simp [ScoreSession.opening, hactive, hknown]

/-- A stroke that can still be undone was completed on one of the pieces. -/
theorem strokes_of_subset {s t : ScoreSession} {strokes : List String}
    (h : ∀ stroke ∈ s.undoStack, ∃ id ∈ strokes, .issued (.addStroke id stroke) ∈ s.log)
    (hstack : t.undoStack.Sublist s.undoStack) (hlog : s.log ⊆ t.log) :
    ∀ stroke ∈ t.undoStack, ∃ id ∈ ScoreHistory.noteStrokes strokes s t,
      .issued (.addStroke id stroke) ∈ t.log := by
  intro stroke hstroke
  obtain ⟨id, hid, hissued⟩ := h stroke (hstack.subset hstroke)
  refine ⟨id, ?_, hlog hissued⟩
  rw [ScoreHistory.noteStrokes, if_neg (List.ne_nil_of_mem hstroke),
    if_neg (Nat.not_lt.mpr hstack.length_le)]
  exact hid

end ScoreSession

section

variable {c : ScoreEvent} {from? : Option (ScoreAwait × ScoreReply)} {s t : ScoreSession}
  {stop : Stop ScoreAwait ScoreFailure Unit} {k : ScoreHistory}

/-- Layers and notes stay those of the snapshot that is shown. -/
theorem ScoreSegment.showsShown (h : ScoreSegment c from? s stop t) (hs : s.ShowsShown) :
    t.ShowsShown := by
  cases h with
  | updated _ annotations added _ => exact ScoreSession.showsShown_updated hs annotations
  | _ => exact hs

theorem ScoreSegment.ink (h : ScoreSegment c from? s stop t)
    (hs : s.shown.map (·.pieceId) = k.ink) :
    t.shown.map (·.pieceId) = ScoreHistory.noteInk k.ink s c from? := by
  cases h with
  | updated _ annotations added hadded =>
    cases hpiece : s.piece with
    | none => simp [ScoreSession.updated_of_none hpiece, ScoreHistory.noteInk, hpiece, hs]
    | some piece => simp [ScoreSession.updated_of_some hpiece, ScoreHistory.noteInk, hpiece, hadded]
  | nothingAdded _ hadded => cases hpiece : s.piece <;> simp [ScoreHistory.noteInk, hadded, hs, hpiece]
  | ignored _ _ hc => cases c <;> first | exact hs | exact absurd rfl hc
  | kept | mismatch => cases c <;> exact hs
  | _ => exact hs

/-- What can be undone has been completed since the stack was empty. -/
theorem ScoreSegment.completed (h : ScoreSegment c from? s stop t)
    (hs : ∀ stroke ∈ s.undoStack, ∃ id ∈ k.strokes, .issued (.addStroke id stroke) ∈ s.log) :
    ∀ stroke ∈ t.undoStack, ∃ id ∈ ScoreHistory.noteStrokes k.strokes s t,
      .issued (.addStroke id stroke) ∈ t.log := by
  cases h with
  | pushed _ now points piece stroke hpiece hid =>
    intro stroke' hstroke
    have hgrows : ScoreHistory.noteStrokes k.strokes s (s.pushed piece.id stroke) =
        k.strokes ++ [piece.id] := by
      simp [ScoreHistory.noteStrokes, ScoreSession.pushed, hpiece]
    rw [hgrows]
    obtain hold | hnew := List.mem_append.mp hstroke
    · obtain ⟨id, hid, hissued⟩ := hs stroke' hold
      exact ⟨id, List.mem_append_left _ hid, List.mem_append_left _ hissued⟩
    · obtain rfl := List.mem_singleton.mp hnew
      exact ⟨piece.id, List.mem_append_right _ List.mem_cons_self,
        List.mem_append_right _ List.mem_cons_self⟩
  | updated _ annotations added hadded =>
    exact ScoreSession.strokes_of_subset hs (by simp) (by simp)
  | rejected | erased =>
    exact ScoreSession.strokes_of_subset hs List.filter_sublist (List.subset_append_left _ _)
  | undone =>
    exact ScoreSession.strokes_of_subset hs (List.dropLast_sublist _) (List.subset_append_left _ _)
  | stored | erasing | undoing | nothingLeft | kept =>
    exact ScoreSession.strokes_of_subset hs (.refl _) (List.subset_append_left _ _)
  | _ => exact ScoreSession.strokes_of_subset hs (.refl _) (List.Subset.refl _)

/-- The watermark that is kept has been read. -/
theorem ScoreSegment.marked (h : ScoreSegment c from? s stop t)
    (haccepts : ∀ point reply, from? = some (point, reply) → point.accepts reply = true)
    (hs : k.marked = false → s.state.lastOpenedAt = none) :
    (k.noteReady s from?).marked = false → t.state.lastOpenedAt = none := by
  cases h with
  | opened _ n pieceId piece reads =>
    intro hmarked
    obtain ⟨hbefore, hread⟩ := Bool.or_eq_false_iff.mp hmarked
    have hnone : (reads.bind fun map => map.get piece.id) = none := by simpa using hread
    simp [ScoreSession.opened, hnone, hs hbefore]
  | updated _ annotations added hadded =>
    intro hmarked
    rw [ScoreSession.state_updated]
    exact hs hmarked
  | mismatch _ _ point reply hnot => simp [haccepts point reply rfl] at hnot
  | _ => exact hs

/-- A subscription is made where no other is active, or the opens were not called in turn. -/
theorem ScoreSegment.subscribed (h : ScoreSegment c from? s stop t)
    (haccepts : ∀ point reply, from? = some (point, reply) → point.accepts reply = true)
    (hcalled : k.called ≤ s.opens.length) (hs : k.doubled = false → s.Subscribed k.called) :
    (k.noteReady s from?).called ≤ t.opens.length ∧
      ((k.noteReady s from?).doubled = false → t.Subscribed (k.noteReady s from?).called) := by
  cases h with
  | opening _ pieceId =>
    refine ⟨?_, fun hdoubled => .inl ((hs hdoubled).opening pieceId)⟩
    simp only [ScoreHistory.noteReady, ScoreSession.opening, List.length_append]
    omega
  | opened _ n pieceId piece reads =>
    refine ⟨Nat.le_refl _, fun hdoubled => ?_⟩
    obtain ⟨hbefore, hnew⟩ := Bool.or_eq_false_iff.mp hdoubled
    have hactive : s.active = [] := (hs hbefore).resolve_right fun hactive => by
      simp [hactive.1] at hnew
    exact .inr ⟨rfl, (n, piece.id), by simp [ScoreSession.opened, hactive], rfl⟩
  | updated _ annotations added hadded =>
    simpa [ScoreSession.Subscribed, ScoreHistory.noteReady] using And.intro hcalled hs
  | mismatch _ _ point reply hnot => simp [haccepts point reply rfl] at hnot
  | _ => exact ⟨hcalled, hs⟩

/-- Every segment keeps the state within its history. -/
theorem ScoreSegment.recorded (h : ScoreSegment c from? s stop t)
    (haccepts : ∀ point reply, from? = some (point, reply) → point.accepts reply = true)
    (hs : s.Recorded k) : t.Recorded (k.note c from? s t) where
  shows := h.showsShown hs.shows
  ink := h.ink hs.ink
  strokes := h.completed hs.strokes
  marked := h.marked haccepts hs.marked
  called := (h.subscribed haccepts hs.called hs.subscribed).1
  subscribed := (h.subscribed haccepts hs.called hs.subscribed).2

/-- Only an open waits where an open waits. -/
theorem ScoreSegment.scoreOpened (h : ScoreSegment c from? s stop t)
    (hopen : (stop.point?.bind (·.open?)).isSome) : ∃ pieceId, c = .scoreOpened pieceId := by
  cases h <;> first | exact ⟨_, rfl⟩ | cases hopen

/-- The pieces that have been opened. -/
theorem ScoreSegment.opens (h : ScoreSegment c from? s stop t) : s.opens <+: t.opens := by
  cases h with
  | opening _ pieceId => exact List.prefix_append _ _
  | updated _ annotations added _ => simp
  | _ => exact List.prefix_rfl

/-- An open goes on with the piece that it was called for. -/
theorem ScoreSegment.target (h : ScoreSegment c from? s stop t)
    (haccepts : ∀ point reply, from? = some (point, reply) → point.accepts reply = true)
    (hfrom : ∀ point reply, from? = some (point, reply) → ∀ target ∈ point.target?,
      s.opens[target.1]? = some target.2) :
    ∀ point ∈ stop.point?, ∀ target ∈ point.target?, t.opens[target.1]? = some target.2 := by
  cases h with
  | opening _ pieceId =>
    rintro _ ⟨⟩ _ ⟨⟩
    simp [ScoreSession.opening]
  | loading _ n pieceId reply =>
    rintro _ ⟨⟩ _ ⟨⟩
    exact hfrom _ _ rfl (n, pieceId) rfl
  | found _ n pieceId piece =>
    rintro _ ⟨⟩ _ ⟨⟩
    have hid : piece.id = pieceId := by simpa [ScoreAwait.accepts] using haccepts _ _ rfl
    rw [hid]
    exact hfrom _ _ rfl (n, pieceId) rfl
  | resolved _ n pieceId piece path =>
    rintro _ ⟨⟩ _ ⟨⟩
    exact hfrom _ _ rfl (n, piece.id) rfl
  | pushed | erasing | undoing =>
    rintro _ ⟨⟩ _ ⟨⟩
  | _ => exact nofun

/-- A piece becomes ready as the last one opened, with nothing left of another one. -/
theorem ScoreHistory.Admits.isolated {n : Nat} {piece : Piece} {lastOpenedAt : Option DateTime}
    (h : k.Admits s n piece lastOpenedAt) (hs : s.Recorded k)
    (hopen : s.opens[n]? = some piece.id) : (s.opened n piece lastOpenedAt).Isolated piece := by
  obtain ⟨hlast, hdoubled, hcalled, hink, -, hstrokes, hmarked⟩ := h
  have hn : n = s.opens.length - 1 := by omega
  refine ScoreSession.isolated_opened hs.shows n lastOpenedAt ?_ (fun annotations hshown => ?_)
    (fun stroke hstroke => ?_) (fun hnone => hs.marked (hmarked hnone)) ?_
  · rw [List.getLast?_eq_getElem?, ← hn, hopen]
  · refine hink _ ?_
    rw [← hs.ink, Option.mem_def.mp hshown]
    rfl
  · obtain ⟨id, hid, hissued⟩ := hs.strokes stroke hstroke
    rwa [hstrokes id hid] at hissued
  · exact (hs.subscribed hdoubled).resolve_right fun hactive => hcalled hactive.1

end

namespace ScoreSession

/-- The state is isolated, and so are the snapshots that wait. -/
def StaysIsolated (s : ScoreSession) : Prop :=
  ∃ piece, s.Isolated piece ∧ ∀ annotations ∈ s.added, annotations.pieceId = piece.id

namespace StaysIsolated

variable {s : ScoreSession}

/-- Undoing, and what is answered, keep a state isolated. -/
theorem redrawn (h : s.StaysIsolated) (mode : ScoreMode) {undoStack : List InkStroke}
    (error : Option String) (strokeSeq : Nat) {log : List StrokeLog} (hstack : undoStack ⊆ s.undoStack)
    (hlog : s.log ⊆ log) : StaysIsolated { s with
      mode := mode
      undoStack := undoStack
      error := error
      strokeSeq := strokeSeq
      log := log } := by
  obtain ⟨piece, hisolated, hwait⟩ := h
  refine ⟨piece, hisolated.redrawn mode error strokeSeq s.added fun stroke hstroke => ?_, hwait⟩
  exact hlog (hisolated.strokes stroke (hstack hstroke))

/-- A stroke is added to the piece that is ready. -/
theorem pushed (h : s.StaysIsolated) {piece : Piece} {stroke : InkStroke}
    (hpiece : s.piece = some piece) : (s.pushed piece.id stroke).StaysIsolated := by
  obtain ⟨piece', hisolated, hwait⟩ := h
  obtain rfl : piece = piece' := Option.some.inj (hpiece.symm.trans hisolated.ready)
  refine ⟨piece, hisolated.redrawn _ _ _ _ fun stroke' hstroke => ?_, hwait⟩
  obtain hold | hnew := List.mem_append.mp hstroke
  · exact List.mem_append_left _ (hisolated.strokes stroke' hold)
  · obtain rfl := List.mem_singleton.mp hnew
    exact List.mem_append_right _ List.mem_cons_self

/-- The annotations that arrive come from the subscription to the piece. -/
theorem arrived (h : s.StaysIsolated) {n : Nat} {annotations : PieceAnnotations}
    (hactive : (n, annotations.pieceId) ∈ s.active) :
    StaysIsolated { s with added := s.added ++ [annotations] } := by
  obtain ⟨piece, hisolated, hwait⟩ := h
  refine ⟨piece, hisolated.redrawn _ _ _ _ hisolated.strokes, fun annotations' hmem => ?_⟩
  obtain hold | hnew := List.mem_append.mp hmem
  · exact hwait annotations' hold
  · obtain rfl := List.mem_singleton.mp hnew
    obtain ⟨m, honly⟩ := hisolated.subscribed
    rw [honly, List.mem_singleton] at hactive
    exact (Prod.mk.inj hactive).2

/-- The annotations that are handled are of the piece. -/
theorem updated (h : s.StaysIsolated) {annotations : PieceAnnotations}
    {added : List PieceAnnotations} (hadded : s.added = annotations :: added) :
    StaysIsolated { s.updated annotations with added := added } := by
  obtain ⟨piece, hisolated, hwait⟩ := h
  refine ⟨piece, hisolated.updated added (hwait annotations (by simp [hadded])), ?_⟩
  exact fun annotations' hmem => hwait annotations' (by simp [hadded, hmem])

end StaysIsolated

end ScoreSession

section

variable {c : ScoreEvent} {from? : Option (ScoreAwait × ScoreReply)} {s t : ScoreSession}
  {stop : Stop ScoreAwait ScoreFailure Unit} {k : ScoreHistory}

/-- Where a piece is ready the last open runs, or the state is isolated: a segment keeps this when
the piece that it makes ready is admitted, or the last open runs besides. -/
theorem ScoreSegment.lastIsolated (h : ScoreSegment c from? s stop t)
    (haccepts : ∀ point reply, from? = some (point, reply) → point.accepts reply = true)
    (hfrom : ∀ point reply, from? = some (point, reply) → ∀ target ∈ point.target?,
      s.opens[target.1]? = some target.2)
    (harrives : ∀ n annotations, c = .snapshot n annotations → from? = none →
      (n, annotations.pieceId) ∈ s.active)
    (hs : s.Recorded k) (others : Nat → Bool)
    (hadmits : others s.opens.length = true ∨ k.AdmitsAt s from?)
    (hbefore : s.status = .ready →
      (others s.opens.length || from?.any (·.1.isOpen s.opens.length)) = true ∨ s.StaysIsolated) :
    t.status = .ready →
      (others t.opens.length || stop.point?.any (·.isOpen t.opens.length)) = true ∨
        t.StaysIsolated := by
  cases h with
  | opening _ pieceId =>
    refine fun _ => .inl ?_
    simp [Stop.point?, ScoreAwait.isOpen, ScoreAwait.open?, ScoreSession.opening]
  | loading _ n pieceId reply => exact nofun
  | missing _ n pieceId error => exact nofun
  | unresolved _ n pieceId piece error => exact nofun
  | found _ n pieceId piece =>
    have hid : piece.id = pieceId := by simpa [ScoreAwait.accepts] using haccepts _ _ rfl
    subst hid
    exact hbefore
  | resolved _ n pieceId piece path => exact hbefore
  | opened _ n pieceId piece reads =>
    intro _
    obtain hruns | hadmits := hadmits
    · exact .inl (by simpa [Stop.point?, ScoreSession.opened] using hruns)
    · exact .inr ⟨piece, hadmits.isolated hs (hfrom _ _ rfl (n, piece.id) rfl),
        hadmits.2.2.2.2.1⟩
  | updated _ annotations added hadded =>
    intro hready
    rw [ScoreSession.status_updated] at hready
    exact (hbefore hready).imp (by simp [Stop.point?]) fun h => h.updated hadded
  | nothingAdded _ hadded => exact hbefore
  | ignored _ _ hc => exact hbefore
  | mismatch _ _ point reply hnot => simp [haccepts point reply rfl] at hnot
  | snapshot _ n annotations =>
    exact fun hready => (hbefore hready).imp id fun h => h.arrived (harrives n annotations rfl rfl)
  | modeChanged _ mode =>
    exact fun hready => (hbefore hready).imp id fun h =>
      h.redrawn mode _ _ (List.Subset.refl _) (List.Subset.refl _)
  | pushed _ now points piece stroke hpiece hid =>
    refine fun hready => (hbefore hready).imp ?_ fun h => h.pushed hpiece
    simp [ScoreSession.pushed, Stop.point?, ScoreAwait.isOpen, ScoreAwait.open?]
  | stored | kept | nothingLeft | erasing | undoing =>
    exact fun hready => (hbefore hready).imp id fun h =>
      h.redrawn _ _ _ (List.Subset.refl _) (List.subset_append_left _ _)
  | rejected | erased =>
    exact fun hready => (hbefore hready).imp id fun h =>
      h.redrawn _ _ _ (List.filter_subset_self _) (List.subset_append_left _ _)
  | undone =>
    exact fun hready => (hbefore hready).imp id fun h =>
      h.redrawn _ _ _ (List.dropLast_subset _) (List.subset_append_left _ _)

end

/-! ## Runs -/

namespace Scores

/-- An open of a number runs. -/
def runsOpen (n : Nat) (running : List (Task ScoreEvent ScoreAwait ScoreReply ScoreSession
    ScoreFailure Unit)) : Bool :=
  running.any fun task => task.rest.point?.any (·.isOpen n)

/-- No open is pending. -/
def Settled (s : Scores) : Prop := ∀ task ∈ s.running, ∀ pieceId, task.call ≠ .scoreOpened pieceId

/-- Where a piece is ready the last open runs, or the state is isolated. -/
def LastIsolated (s : Scores) : Prop :=
  s.state.status = .ready → runsOpen s.state.opens.length s.running = true ∨ s.state.StaysIsolated

/-- The history with one more event. -/
def note (k : ScoreHistory) (s : Scores) (event : ScoreStep) (t : Scores) : ScoreHistory :=
  match event with
  | .call c => k.note c none s.state t.state
  | .resume i reply =>
    match s.running[i]? with
    | some ⟨c, .await point _⟩ => k.note c (some (point, reply)) s.state t.state
    | _ => k
  | .kill => k

/-- A piece that becomes ready is admitted, unless the last open runs besides. -/
def InTurn (s : Scores × ScoreHistory) : ScoreStep → Prop
  | .resume i reply => ∀ task ∈ s.1.running[i]?, ∀ point ∈ task.rest.point?,
      runsOpen s.1.state.opens.length (s.1.running.eraseIdx i) = true ∨
        s.2.AdmitsAt s.1.state (some (point, reply))
  | _ => True

instance (s : Scores × ScoreHistory) (event : ScoreStep) : Decidable (InTurn s event) := by
  unfold InTurn
  split <;> infer_instance

/-- The handlers are as specified; the state holds nothing but what the history has; the opens wait
for the pieces that they were called for; and the last one runs, or the state is isolated. -/
structure Inv (s : Scores) (k : ScoreHistory) : Prop where
  obeys : s.ObeysOn ScoreSegment
  recorded : s.state.Recorded k
  opens : ∀ task ∈ s.running, (task.rest.point?.bind (·.open?)).isSome →
    ∃ pieceId, task.call = .scoreOpened pieceId
  targets : ∀ task ∈ s.running, ∀ point ∈ task.rest.point?, ∀ target ∈ point.target?,
    s.state.opens[target.1]? = some target.2
  last : s.LastIsolated

theorem inv_initial (currentUserId : String) :
    Inv (Lib.Isolate.start (.initial currentUserId)) .empty where
  obeys := nofun
  recorded := ScoreSession.recorded_initial currentUserId
  opens := nofun
  targets := nofun
  last := nofun

section

variable {s t : Scores} {k : ScoreHistory} {c : ScoreEvent} {left : ScoreProgram Unit × ScoreSession}
  {stop : Stop ScoreAwait ScoreFailure Unit} {from? : Option (ScoreAwait × ScoreReply)}

/-- What holds where the other calls wait and where a call has stopped holds wherever one waits. -/
theorem forall_point_settle {P : ScoreEvent → ScoreAwait → Prop}
    (hothers : ∀ task ∈ s.running, ∀ point ∈ task.rest.point?, P task.call point)
    (hstop : left.1.stop? = some stop) (hnew : ∀ point ∈ stop.point?, P c point) :
    ∀ task ∈ (s.settle c left).running, ∀ point ∈ task.rest.point?, P task.call point := by
  intro task htask point hpoint
  obtain hold | rfl := Lib.Isolate.mem_running_settle htask
  · exact hothers task hold point hpoint
  · cases stop with
    | waits point' =>
      obtain rfl := Option.some.inj ((point?_of_stop? hstop).1.symm.trans hpoint)
      exact hnew _ rfl
    | ends outcome => cases hpoint.symm.trans (ended?_of_stop? hstop).1

end

variable {s t : Scores} {k : ScoreHistory} {event : ScoreStep}

/-- A handler has stopped: what its segment keeps, the bloc keeps. -/
theorem Inv.settle {c : ScoreEvent} {from? : Option (ScoreAwait × ScoreReply)} {u : Scores}
    {left : ScoreProgram Unit × ScoreSession} {stop : Stop ScoreAwait ScoreFailure Unit}
    (h : s.Inv k) (hrunning : u.running ⊆ s.running)
    (hobeys : (u.settle c left).ObeysOn ScoreSegment) (hstop : left.1.stop? = some stop)
    (hseg : ScoreSegment c from? s.state stop left.2)
    (haccepts : ∀ point reply, from? = some (point, reply) → point.accepts reply = true)
    (hfrom : ∀ point reply, from? = some (point, reply) → ∀ target ∈ point.target?,
      s.state.opens[target.1]? = some target.2)
    (harrives : ∀ n annotations, c = .snapshot n annotations → from? = none →
      (n, annotations.pieceId) ∈ s.state.active)
    (hadmits : runsOpen s.state.opens.length u.running = true ∨ k.AdmitsAt s.state from?)
    (hlast : s.state.status = .ready → (runsOpen s.state.opens.length u.running ||
      from?.any (·.1.isOpen s.state.opens.length)) = true ∨ s.state.StaysIsolated) :
    Inv (u.settle c left) (k.note c from? s.state left.2) := by
  refine ⟨hobeys, ?_, fun task htask hopen => ?_, ?_, ?_⟩
  · rw [Lib.Isolate.state_settle]
    exact hseg.recorded haccepts h.recorded
  · obtain ⟨n, hn⟩ := Option.isSome_iff_exists.mp hopen
    obtain ⟨point, hpoint, hn⟩ := Option.bind_eq_some_iff.mp hn
    refine forall_point_settle (P := fun c point => point.open?.isSome →
      ∃ pieceId, c = .scoreOpened pieceId) (fun task htask point hpoint hopen => ?_) hstop
      (fun point hpoint hopen => ?_) task htask point hpoint (by simp [hn])
    · exact h.opens task (hrunning htask) (by rw [hpoint]; exact hopen)
    · exact hseg.scoreOpened (by rw [hpoint]; exact hopen)
  · rw [Lib.Isolate.state_settle]
    refine forall_point_settle (P := fun _ point => ∀ target ∈ point.target?,
      left.2.opens[target.1]? = some target.2) (fun task htask point hpoint target htarget => ?_)
      hstop (hseg.target haccepts hfrom)
    have htargets := h.targets task (hrunning htask) point hpoint target htarget
    obtain ⟨rest, hrest⟩ := hseg.opens
    rw [← hrest, List.getElem?_append_left (List.getElem?_eq_some_iff.mp htargets).1]
    exact htargets
  · unfold LastIsolated runsOpen
    rw [Lib.Isolate.any_point_settle hstop, Lib.Isolate.state_settle]
    exact hseg.lastIsolated haccepts hfrom harrives h.recorded (fun n => runsOpen n u.running)
      hadmits hlast

theorem inv_step (h : s.Inv k) (hin : InTurn (s, k) event) (hstep : step s event = some t) :
    t.Inv (note k s event t) := by
  obtain ⟨hobeys, henabled, hseg⟩ := step_iff_segment h.obeys hstep
  have hlast := h.last
  unfold LastIsolated runsOpen at hlast
  cases event with
  | call c =>
    obtain ⟨left, stop, hstop, hseg, rfl⟩ := hseg
    rw [note, Lib.Isolate.state_settle]
    refine h.settle (List.Subset.refl _) hobeys hstop hseg ?_ ?_ ?_ (.inr trivial)
      (by simpa [runsOpen] using hlast)
    · rintro _ _ ⟨⟩
    · rintro _ _ ⟨⟩
    · rintro n annotations rfl -
      simpa [enabled] using henabled
  | resume i reply =>
    obtain ⟨c, point, rest, left, stop, hrunning, hstop, hseg, rfl⟩ := hseg
    have haccepts := accepts_of_enabled hrunning henabled
    have hmem := List.mem_of_getElem? hrunning
    have hadmits := hin _ hrunning point rfl
    rw [Lib.Isolate.any_point_eraseIdx hrunning] at hlast
    simp only [note, hrunning, Lib.Isolate.state_settle]
    refine h.settle (fun _ => List.mem_of_mem_eraseIdx) hobeys hstop hseg ?_ ?_ ?_ hadmits
      (by simpa [runsOpen] using hlast)
    · rintro _ _ ⟨⟩
      exact haccepts
    · rintro _ _ ⟨⟩
      exact h.targets _ hmem point rfl
    · rintro _ _ _ ⟨⟩
  | kill => cases henabled

/-- In every run whose pieces become ready in turn, the state is isolated whenever a piece is ready
and no open is pending. -/
theorem isolated_of_inTurn (currentUserId : String) {events : List ScoreStep}
    (h : EachStep (recorded step note) InTurn
      (Lib.Isolate.start (.initial currentUserId), .empty) events) :
    Always step (fun s => s.Settled → s.state.status = .ready → ∃ piece, s.state.Isolated piece)
      (Lib.Isolate.start (.initial currentUserId)) events := by
  refine Always.of_recorded (I := Inv) (fun _ _ _ _ hinv hin hstep => inv_step hinv hin hstep) ?_
    (inv_initial currentUserId) h
  intro s k hinv hsettled hready
  obtain hruns | ⟨piece, hisolated, -⟩ := hinv.last hready
  · obtain ⟨task, htask, hopen⟩ := List.any_eq_true.mp hruns
    obtain ⟨pieceId, hcall⟩ := hinv.opens task htask (by
      unfold ScoreAwait.isOpen at hopen
      cases hpoint : task.rest.point? with
      | none => simp [hpoint] at hopen
      | some point => cases hn : point.open? <;> simp_all)
    exact absurd hcall (hsettled task htask pieceId)
  · exact ⟨piece, hisolated⟩

/-! ### A watermark that is kept -/

/-- `ann` opens a piece, whose annotations are shown. -/
def opensPiece (id : String) (reads : Assoc String DateTime) : List ScoreStep :=
  [.call (.scoreOpened id), .resume 0 .cancelled,
    .resume 0 (.piece (.ok ⟨id, "Etude", "sum", "etude.pdf", "ann", none, [], .sinceEpoch 0,
      .sinceEpoch 0⟩)), .resume 0 (.basePdfPath (.ok none)), .resume 0 (.reads (some reads))]

/-- A piece that is opened again after its annotations have been shown is isolated. -/
theorem isolated_of_inTurn_again :
    Always step (fun s => s.Settled → s.state.status = .ready → ∃ piece, s.state.Isolated piece)
      (Lib.Isolate.start (.initial "ann")) (opensPiece "etude" [("etude", ⟨5, by decide⟩)] ++
        [.call (.snapshot 0 (.empty "etude")), .call .annotationsUpdated] ++
        opensPiece "etude" [("etude", ⟨7, by decide⟩)]) :=
  isolated_of_inTurn "ann" (by decide +kernel)

/-- The watermark of a piece is kept when a piece is opened that has none. -/
theorem not_isolated : ∃ t, run step (Lib.Isolate.start (.initial "ann"))
    (opensPiece "etude" [("etude", ⟨5, by decide⟩)] ++ opensPiece "prelude" []) = some t ∧
      t.Settled ∧ t.state.status = .ready ∧ ¬∃ piece, t.state.Isolated piece := by
  have hrun : (run step (Lib.Isolate.start (.initial "ann"))
      (opensPiece "etude" [("etude", ⟨5, by decide⟩)] ++ opensPiece "prelude" [])).map (fun t =>
        (t.running.isEmpty, t.state.status, t.state.state.lastOpenedAt.isSome,
          t.state.watermark.isSome)) = some (true, .ready, true, false) := by decide +kernel
  obtain ⟨t, ht, hstate⟩ := Option.map_eq_some_iff.mp hrun
  simp only [Prod.mk.injEq] at hstate
  obtain ⟨hrunning, hready, hkept, hnone⟩ := hstate
  refine ⟨t, ht, ?_, hready, ?_⟩
  · unfold Settled
    rw [List.isEmpty_iff.mp hrunning]
    exact nofun
  · rintro ⟨piece, hisolated⟩
    rw [hisolated.watermark, hnone] at hkept
    cases hkept

end Scores

end Duet
