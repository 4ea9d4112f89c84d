import Duet.Device.AudioAssetStore
import Duet.Score.Bloc

/-!
# The undo stack of the score view

Strokes are pushed before they are stored, filtered out when the repository rejects or erases them,
and popped when an undo has erased one. What an undo pops is the last stroke when it is done, which
need not be the one that it has erased.

## Main definitions

* `surviving` — the strokes of a log that have been stored and not been erased since.
* `Scores.Pops` — an undo that is done finds the stroke that it has erased last on the stack.

## Main results

* `Scores.tracks_iff` — the stack follows the log exactly in the runs whose undos do so.
* `Scores.undoStack_eq_surviving` — in these runs the stack is `surviving` whenever nothing is
  pending.
-/

namespace Duet

open Lib Async

/-! ## The strokes of a log -/

namespace StrokeLog

/-- The stroke that is added. -/
def stroke? : StrokeLog → Option InkStroke
  | issued (.addStroke _ stroke) => some stroke
  | _ => none

/-- The strokes of an id have been erased. -/
def erases (strokeId : String) : StrokeLog → Bool
  | returned (.eraseStroke _ strokeId') true => strokeId' == strokeId
  | _ => false

/-- The call that adds the stroke of an id has come back as said. -/
def answers (success : Bool) (strokeId : String) : StrokeLog → Bool
  | returned (.addStroke _ stroke) success' => success' == success && stroke.id == strokeId
  | _ => false

@[simp] theorem erases_issued (strokeId : String) (call : StrokeCall) :
    (issued call).erases strokeId = false := rfl
@[simp] theorem answers_issued (success : Bool) (strokeId : String) (call : StrokeCall) :
    (issued call).answers success strokeId = false := rfl

/-- The stroke of an id is added. -/
def adds (strokeId : String) (entry : StrokeLog) : Bool :=
  entry.stroke?.any fun stroke => stroke.id == strokeId

end StrokeLog

/-- The strokes that are added and meet a condition on them and on what follows in the log. -/
def strokesThat (keep : InkStroke → List StrokeLog → Bool) : List StrokeLog → List InkStroke
  | [] => []
  | entry :: after => (entry.stroke?.filter fun stroke => keep stroke after).toList ++
      strokesThat keep after

/-- The strokes whose `addStroke` has succeeded and that have not been erased since, in the order in
which they were added. -/
def surviving (log : List StrokeLog) : List InkStroke :=
  strokesThat (fun stroke after =>
    log.any (·.answers true stroke.id) && !after.any (·.erases stroke.id)) log

/-- The strokes that have not been rejected and not been erased since. -/
def standing (log : List StrokeLog) : List InkStroke :=
  strokesThat (fun stroke after =>
    !log.any (·.answers false stroke.id) && !after.any (·.erases stroke.id)) log

section

variable {keep keep' : InkStroke → List StrokeLog → Bool} {log : List StrokeLog}

theorem strokesThat_concat (entry : StrokeLog) : strokesThat keep (log ++ [entry]) =
    strokesThat (fun stroke after => keep stroke (after ++ [entry])) log ++
      (entry.stroke?.filter fun stroke => keep stroke []).toList := by
  induction log with
  | nil => simp [strokesThat]
  | cons first log ih => simp [strokesThat, ih]

theorem strokesThat_congr (h : ∀ entry ∈ log, ∀ stroke ∈ entry.stroke?, ∀ after,
    keep stroke after = keep' stroke after) : strokesThat keep log = strokesThat keep' log := by
  induction log with
  | nil => rfl
  | cons first log ih =>
    rw [strokesThat, strokesThat, ih fun entry hentry => h entry (List.mem_cons_of_mem _ hentry)]
    cases hstroke : first.stroke? with
    | none => rfl
    | some stroke => simp [Option.filter, h first List.mem_cons_self stroke hstroke log]

theorem strokesThat_and (q : InkStroke → Bool) :
    strokesThat (fun stroke after => keep stroke after && q stroke) log =
      (strokesThat keep log).filter q := by
  induction log with
  | nil => rfl
  | cons first log ih =>
    rw [strokesThat, strokesThat, ih, List.filter_append]
    cases hstroke : first.stroke? with
    | none => rfl
    | some stroke => cases hkeep : keep stroke log <;> cases hq : q stroke <;>
        simp [Option.filter, hkeep, hq]

theorem strokesThat_sublist : (strokesThat keep log).Sublist (log.filterMap (·.stroke?)) := by
  induction log with
  | nil => exact .slnil
  | cons first log ih =>
    rw [strokesThat]
    cases hstroke : first.stroke? with
    | none => simpa [hstroke] using ih
    | some stroke =>
      rw [List.filterMap_cons_some hstroke]
      cases hkeep : keep stroke log with
      | false => simpa [Option.filter, hkeep] using ih.cons stroke
      | true => simpa [Option.filter, hkeep] using ih.cons_cons stroke

end

/-! ### What an entry does to the strokes -/

section

variable {log : List StrokeLog}

/-- An entry that answers no call, or the one that it stores a stroke. -/
theorem standing_concat_of_not {entry : StrokeLog} (hstroke : entry.stroke? = none)
    (hanswers : ∀ strokeId, entry.answers false strokeId = false)
    (herases : ∀ strokeId, entry.erases strokeId = false) :
    standing (log ++ [entry]) = standing log := by
  rw [standing, strokesThat_concat, hstroke]
  simp [standing, hanswers, herases]

/-- A stroke that is added stands, as long as none of its id has been rejected. -/
theorem standing_concat_add (pieceId : String) {stroke : InkStroke}
    (hnew : log.any (·.answers false stroke.id) = false) :
    standing (log ++ [.issued (.addStroke pieceId stroke)]) = standing log ++ [stroke] := by
  rw [standing, strokesThat_concat]
  simp [standing, StrokeLog.stroke?, List.any_append, hnew]

theorem standing_concat_reject (pieceId : String) (stroke : InkStroke) :
    standing (log ++ [.returned (.addStroke pieceId stroke) false]) =
      (standing log).filter fun stroke' => stroke'.id ≠ stroke.id := by
  rw [standing, strokesThat_concat, standing, ← strokesThat_and]
  simp only [StrokeLog.stroke?, Option.filter_none, Option.toList_none, List.append_nil]
  refine strokesThat_congr fun entry _ stroke' _ after => ?_
  simp [StrokeLog.answers, StrokeLog.erases]
  grind

theorem standing_concat_erase (pieceId strokeId : String) :
    standing (log ++ [.returned (.eraseStroke pieceId strokeId) true]) =
      (standing log).filter fun stroke => stroke.id ≠ strokeId := by
  rw [standing, strokesThat_concat, standing, ← strokesThat_and]
  simp only [StrokeLog.stroke?, Option.filter_none, Option.toList_none, List.append_nil]
  refine strokesThat_congr fun entry _ stroke _ after => ?_
  simp [StrokeLog.answers, StrokeLog.erases]
  grind

end

/-- A stroke id is not minted twice. -/
theorem strokeId_injective_seq {t u : DateTime} {m n : Nat} (h : strokeId t m = strokeId u n) :
    m = n := eq_of_counter h

/-! ## Segments and the log -/

/-- A handler waits until the stroke of an id is stored. -/
def ScoreAwait.stores (strokeId : String) : ScoreAwait → Bool
  | .stroke (.addStroke _ added) => added.id == strokeId
  | _ => false

/-- A handler waits until the strokes of an id are erased. -/
def ScoreAwait.erased? : ScoreAwait → Option String
  | .stroke (.eraseStroke _ strokeId) => some strokeId
  | _ => none

theorem ScoreAwait.eq_of_erased? {point : ScoreAwait} {strokeId : String}
    (h : point.erased? = some strokeId) :
    ∃ pieceId, point = .stroke (.eraseStroke pieceId strokeId) := by
  unfold ScoreAwait.erased? at h
  split at h
  · next pieceId _ => exact ⟨pieceId, by rw [Option.some.inj h]⟩
  · cases h

/-- The strokes that have been added. -/
def addedStrokes (log : List StrokeLog) : List InkStroke := log.filterMap (·.stroke?)

/-- How often a stroke of an id has been stored or rejected. -/
def answered (strokeId : String) (log : List StrokeLog) : Nat :=
  log.countP fun entry => entry.answers true strokeId || entry.answers false strokeId

@[simp] theorem addedStrokes_concat (log : List StrokeLog) (entry : StrokeLog) :
    addedStrokes (log ++ [entry]) = addedStrokes log ++ entry.stroke?.toList := by
  cases hstroke : entry.stroke? <;> simp [addedStrokes, hstroke]

@[simp] theorem answered_concat (strokeId : String) (log : List StrokeLog) (entry : StrokeLog) :
    answered strokeId (log ++ [entry]) = answered strokeId log +
      (entry.answers true strokeId || entry.answers false strokeId).toNat := by
  cases h : entry.answers true strokeId || entry.answers false strokeId <;>
    simp_all [answered, List.countP_append]

/-- An answer is one or the other. -/
theorem answered_eq (strokeId : String) (log : List StrokeLog) : answered strokeId log =
    log.countP (·.answers true strokeId) + log.countP (·.answers false strokeId) := by
  induction log with
  | nil => rfl
  | cons entry log ih =>
    unfold answered at ih ⊢
    have hexclusive : ¬(entry.answers true strokeId = true ∧ entry.answers false strokeId = true) := by
      unfold StrokeLog.answers
      split <;> grind
    simp only [List.countP_cons, ih]
    cases htrue : entry.answers true strokeId <;> cases hfalse : entry.answers false strokeId
    · simp
    · simp
      omega
    · simp
      omega
    · exact absurd ⟨htrue, hfalse⟩ hexclusive

section

variable {e : ScoreEvent} {from? : Option (ScoreAwait × ScoreReply)} {s t : ScoreSession}
  {stop : Stop ScoreAwait ScoreFailure Unit}

/-- A segment adds at most one stroke, and mints its id. -/
theorem ScoreSegment.strokes (h : ScoreSegment e from? s stop t) :
    addedStrokes t.log = addedStrokes s.log ∧ t.strokeSeq = s.strokeSeq ∨
      ∃ stroke now, stroke.id = strokeId now s.strokeSeq ∧
        addedStrokes t.log = addedStrokes s.log ++ [stroke] ∧ t.strokeSeq = s.strokeSeq + 1 := by
  cases h with
  | pushed _ now points piece stroke _ hid =>
    exact .inr ⟨stroke, now, hid, addedStrokes_concat _ _, rfl⟩
  | updated _ annotations added _ =>
    left
    unfold ScoreSession.updated
    split <;> exact ⟨rfl, rfl⟩
  | _ =>
    left
    simp [StrokeLog.stroke?, ScoreSession.opening, ScoreSession.loading,
      ScoreSession.failed, ScoreSession.opened, ScoreSession.receive, ScoreSession.issue,
      ScoreSession.failing, ScoreSession.dropped]

/-- Every stroke that is added is awaited until it is answered, once. -/
theorem ScoreSegment.counts (h : ScoreSegment e from? s stop t)
    (haccepts : ∀ point reply, from? = some (point, reply) → point.accepts reply = true)
    (strokeId : String) :
    answered strokeId t.log + (stop.point?.any (·.stores strokeId)).toNat +
        (addedStrokes s.log).countP (·.id == strokeId) =
      answered strokeId s.log + (from?.any (·.1.stores strokeId)).toNat +
        (addedStrokes t.log).countP (·.id == strokeId) := by
  cases h with
  | updated _ annotations added _ =>
    unfold ScoreSession.updated
    split <;> simp [Stop.point?]
  | mismatch _ _ point reply hnot => simp [haccepts point reply rfl] at hnot
  | pushed _ now points piece stroke _ _ =>
    simp only [ScoreSession.pushed, answered_concat, addedStrokes_concat, StrokeLog.stroke?,
      StrokeLog.answers_issued, Stop.point?, Option.any_some, Option.any_none, ScoreAwait.stores,
      Option.toList_some, List.countP_append, List.countP_singleton, Bool.toNat_false, Bool.or_false]
    cases stroke.id == strokeId with
    | false => simp
    | true =>
      simp only [Bool.toNat_true, if_true]
      omega
  | _ =>
    simp [StrokeLog.stroke?, StrokeLog.answers, Stop.point?,
      ScoreAwait.stores, ScoreSession.opening, ScoreSession.loading, ScoreSession.failed,
      ScoreSession.opened, ScoreSession.receive, ScoreSession.issue, ScoreSession.failing,
      ScoreSession.dropped]

/-- What an undo pops is what it has erased, unless nothing is left to pop. -/
def ScoreSession.PopsErased (s : ScoreSession) (strokeId : String) : Prop :=
  ∀ last ∈ s.undoStack.getLast?, last.id = strokeId

/-- The last stroke is the one of the id exactly when popping is filtering. -/
theorem dropLast_eq_filter_iff {strokes : List InkStroke} (hdistinct : (strokes.map (·.id)).Nodup)
    (hne : strokes ≠ []) (strokeId : String) :
    strokes.dropLast = strokes.filter (fun stroke => stroke.id ≠ strokeId) ↔
      (strokes.getLast hne).id = strokeId := by
  obtain ⟨front, last, rfl⟩ : ∃ front last, strokes = front ++ [last] :=
    ⟨_, _, (List.dropLast_append_getLast hne).symm⟩
  rw [List.map_append, List.nodup_append] at hdistinct
  have hfront : ∀ stroke ∈ front, stroke.id ≠ last.id := fun stroke hstroke =>
    hdistinct.2.2 _ (List.mem_map_of_mem hstroke) _ (by simp)
  rw [List.dropLast_concat, List.getLast_append_singleton, List.filter_append]
  constructor
  · intro h
    by_contra hne
    have hmem : last ∈ front.filter (fun stroke => stroke.id ≠ strokeId) ++
        [last].filter (fun stroke => stroke.id ≠ strokeId) := by simp [hne]
    rw [← h] at hmem
    exact hfront last hmem rfl
  · rintro rfl
    rw [List.filter_eq_self.mpr (by simpa using hfront)]
    simp

/-- A segment that follows the log goes on to follow it exactly when what it pops has been
erased. -/
theorem ScoreSegment.tracks_iff (h : ScoreSegment e from? s stop t)
    (hdistinct : ((addedStrokes s.log).map (·.id)).Nodup)
    (hnew : ∀ now, s.log.any (·.answers false (strokeId now s.strokeSeq)) = false)
    (htracks : s.undoStack = standing s.log) : t.undoStack = standing t.log ↔
      ∀ pieceId strokeId, e = .undoRequested →
        from? = some (.stroke (.eraseStroke pieceId strokeId), .stroke (.ok ())) →
          s.PopsErased strokeId := by
  have hstack : (s.undoStack.map (·.id)).Nodup := by
    rw [htracks]
    exact hdistinct.sublist (strokesThat_sublist.map _)
  cases h with
  | pushed _ now points piece stroke _ hid =>
    refine iff_of_true ?_ nofun
    have hnone : s.log.any (·.answers false stroke.id) = false := hid ▸ hnew now
    simp only [ScoreSession.pushed, standing_concat_add piece.id hnone, htracks]
  | rejected _ now points pieceId stroke error =>
    refine iff_of_true ?_ nofun
    simp only [ScoreSession.dropped, ScoreSession.failing, ScoreSession.receive,
      standing_concat_reject, htracks]
  | erased _ strokeId pieceId =>
    refine iff_of_true ?_ nofun
    simp only [ScoreSession.dropped, ScoreSession.receive, standing_concat_erase, htracks]
  | undone _ pieceId strokeId hne =>
    simp only [ScoreSession.receive, standing_concat_erase, ← htracks]
    rw [dropLast_eq_filter_iff hstack hne]
    have hlast : ∀ strokeId, s.PopsErased strokeId ↔ (s.undoStack.getLast hne).id = strokeId := by
      intro strokeId
      simp [ScoreSession.PopsErased, List.getLast?_eq_some_getLast hne]
    constructor
    · intro hid pieceId' strokeId' _ hfrom
      obtain ⟨-, rfl⟩ : pieceId = pieceId' ∧ strokeId = strokeId' := by simpa using hfrom
      exact (hlast strokeId).mpr hid
    · exact fun hpops => (hlast strokeId).mp (hpops pieceId strokeId trivial rfl)
  | nothingLeft _ pieceId strokeId hempty =>
    refine iff_of_true ?_ fun _ _ _ _ => by simp [ScoreSession.PopsErased, hempty]
    have herase : standing (s.log ++ [.returned (.eraseStroke pieceId strokeId) true]) = _ :=
      standing_concat_erase pieceId strokeId
    rw [← htracks, hempty] at herase
    simpa [ScoreSession.receive, hempty] using herase.symm
  | updated _ annotations added _ =>
    refine iff_of_true ?_ nofun
    unfold ScoreSession.updated
    split <;> exact htracks
  | stored _ now points pieceId stroke =>
    refine iff_of_true ?_ nofun
    simp only [ScoreSession.receive]
    rwa [standing_concat_of_not rfl (fun _ => rfl) fun _ => rfl]
  | kept _ _ pieceId strokeId error =>
    refine iff_of_true ?_ nofun
    simp only [ScoreSession.receive, ScoreSession.failing]
    rwa [standing_concat_of_not rfl (fun _ => rfl) fun _ => rfl]
  | erasing _ strokeId piece _ =>
    refine iff_of_true ?_ nofun
    simp only [ScoreSession.issue]
    rwa [standing_concat_of_not rfl (fun _ => rfl) fun _ => rfl]
  | undoing _ piece last _ _ =>
    refine iff_of_true ?_ nofun
    simp only [ScoreSession.issue]
    rwa [standing_concat_of_not rfl (fun _ => rfl) fun _ => rfl]
  | mismatch _ _ point reply hnot =>
    refine iff_of_true htracks fun pieceId strokeId _ hfrom => ?_
    obtain ⟨rfl, rfl⟩ := Prod.mk.inj (Option.some.inj hfrom)
    cases hnot
  | _ => exact iff_of_true htracks nofun

end

/-! ## Runs -/

namespace Scores

/-- The handlers are as specified, every stroke has an id of its own, and is awaited until it is
stored or rejected. -/
structure StrokesInv (s : Scores) : Prop where
  obeys : s.ObeysOn ScoreSegment
  distinct : ((addedStrokes s.state.log).map (·.id)).Nodup
  minted : ∀ stroke ∈ addedStrokes s.state.log, ∃ now m, m < s.state.strokeSeq ∧
    stroke.id = strokeId now m
  counted : ∀ strokeId, answered strokeId s.state.log +
      s.running.countP (fun task => task.rest.point?.any (·.stores strokeId)) =
    (addedStrokes s.state.log).countP (·.id == strokeId)

theorem strokesInv_initial (currentUserId : String) :
    StrokesInv (Lib.Isolate.start (.initial currentUserId)) where
  obeys := nofun
  distinct := List.nodup_nil
  minted := nofun
  counted := fun _ => rfl

/-- An id that has not been minted has not been answered. -/
theorem StrokesInv.not_answered {s : Scores} (h : s.StrokesInv) (now : DateTime) (success : Bool) :
    s.state.log.any (·.answers success (strokeId now s.state.strokeSeq)) = false := by
  have hnone : (addedStrokes s.state.log).countP (·.id == strokeId now s.state.strokeSeq) = 0 := by
    rw [List.countP_eq_zero]
    intro stroke hstroke hid
    obtain ⟨now', m, hm, hminted⟩ := h.minted stroke hstroke
    rw [beq_iff_eq, hminted] at hid
    exact absurd (strokeId_injective_seq hid) (by omega)
  have hanswered : answered (strokeId now s.state.strokeSeq) s.state.log = 0 := by
    have := h.counted (strokeId now s.state.strokeSeq)
    omega
  rw [answered, List.countP_eq_zero] at hanswered
  rw [List.any_eq_false]
  intro entry hentry hanswers
  have := hanswered entry hentry
  cases success <;> simp_all

section

variable {s t : Scores} {u : ScoreSession} {c : ScoreEvent}
  {from? : Option (ScoreAwait × ScoreReply)} {stop : Stop ScoreAwait ScoreFailure Unit}

/-- The strokes stay different, and their ids minted. -/
theorem StrokesInv.strokes_of_segment (h : s.StrokesInv)
    (hseg : ScoreSegment c from? s.state stop u) :
    ((addedStrokes u.log).map (·.id)).Nodup ∧ ∀ stroke ∈ addedStrokes u.log,
      ∃ now m, m < u.strokeSeq ∧ stroke.id = strokeId now m := by
  obtain ⟨hstrokes, hseq⟩ | ⟨added, now, hid, hstrokes, hseq⟩ := hseg.strokes
  · rw [hstrokes, hseq]
    exact ⟨h.distinct, h.minted⟩
  rw [hstrokes, hseq]
  constructor
  · rw [List.map_append, List.nodup_append]
    refine ⟨h.distinct, List.nodup_singleton _, ?_⟩
    simp only [List.mem_map, List.map_cons, List.map_nil, List.mem_singleton]
    rintro _ ⟨stroke, hstroke, rfl⟩ _ rfl heq
    obtain ⟨now', m, hm, hminted⟩ := h.minted stroke hstroke
    have := strokeId_injective_seq (hminted.symm.trans (heq.trans hid))
    omega
  · intro stroke hstroke
    obtain hold | hnew := List.mem_append.mp hstroke
    · obtain ⟨now', m, hm, hminted⟩ := h.minted stroke hold
      exact ⟨now', m, by omega, hminted⟩
    · obtain rfl := List.mem_singleton.mp hnew
      exact ⟨now, s.state.strokeSeq, by omega, hid⟩

/-- Every step keeps the accounts. -/
theorem strokesInv_step {event : ScoreStep} (h : s.StrokesInv) (hstep : step s event = some t) :
    t.StrokesInv := by
  obtain ⟨hobeys, henabled, hseg⟩ := step_iff_segment h.obeys hstep
  cases event with
  | call c =>
    obtain ⟨left, stop, hstop, hseg, rfl⟩ := hseg
    obtain ⟨hdistinct, hminted⟩ := h.strokes_of_segment hseg
    refine ⟨hobeys, by simpa using hdistinct, by simpa using hminted, fun strokeId => ?_⟩
    have hcounts := hseg.counts nofun strokeId
    have hbefore := h.counted strokeId
    rw [Lib.Isolate.countP_point_settle hstop, Lib.Isolate.state_settle]
    simp only [Option.any_none, Bool.toNat_false] at hcounts
    dsimp only
    omega
  | resume i reply =>
    obtain ⟨c, point, k, left, stop, hrunning, hstop, hseg, rfl⟩ := hseg
    obtain ⟨hdistinct, hminted⟩ := h.strokes_of_segment hseg
    have haccepts := accepts_of_enabled hrunning henabled
    refine ⟨hobeys, by simpa using hdistinct, by simpa using hminted, fun strokeId => ?_⟩
    have hcounts := hseg.counts (by simpa using haccepts) strokeId
    have hbefore := h.counted strokeId
    have herased := Lib.Isolate.countP_point_eraseIdx hrunning (·.stores strokeId)
    rw [Lib.Isolate.countP_point_settle hstop, Lib.Isolate.state_settle]
    simp only [Option.any_some] at hcounts
    dsimp only at herased ⊢
    omega
  | kill => cases henabled

end

/-! ### The stack -/

/-- The stack is what stands in the log. -/
def Tracks (s : Scores) : Prop := s.state.undoStack = standing s.state.log

/-- An undo that has erased its stroke finds it last on the stack, if there is any. -/
def Pops (s : Scores) : ScoreStep → Prop
  | .resume i (.stroke (.ok _)) => ∀ task ∈ s.running[i]?, task.call = .undoRequested →
      ∀ strokeId ∈ task.rest.point?.bind (·.erased?), s.state.PopsErased strokeId
  | _ => True

instance (s : Scores) (event : ScoreStep) : Decidable (s.Pops event) := by
  unfold Pops ScoreSession.PopsErased
  split <;> infer_instance

/-- One step goes on to follow the log exactly when an undo pops what it has erased. -/
theorem tracks_step_iff {s t : Scores} {event : ScoreStep} (h : s.StrokesInv) (htracks : s.Tracks)
    (hstep : step s event = some t) : t.Tracks ↔ s.Pops event := by
  obtain ⟨-, henabled, hseg⟩ := step_iff_segment h.obeys hstep
  have hnew := fun now => h.not_answered now false
  cases event with
  | call c =>
    obtain ⟨left, stop, hstop, hseg, rfl⟩ := hseg
    rw [Tracks, Lib.Isolate.state_settle, hseg.tracks_iff h.distinct hnew htracks]
    exact iff_of_true nofun trivial
  | resume i reply =>
    obtain ⟨c, point, k, left, stop, hrunning, hstop, hseg, rfl⟩ := hseg
    rw [Tracks, Lib.Isolate.state_settle, hseg.tracks_iff h.distinct hnew htracks]
    cases reply with
    | stroke result =>
      cases result with
      | ok _ =>
        constructor
        · intro hpops task htask hcall strokeId herased
          obtain rfl : task = ⟨c, .await point k⟩ := Option.some.inj (htask.symm.trans hrunning)
          obtain ⟨pieceId, rfl⟩ := ScoreAwait.eq_of_erased? herased
          exact hpops pieceId strokeId hcall rfl
        · intro hpops pieceId strokeId hcall hfrom
          obtain ⟨rfl, -⟩ := Prod.mk.inj (Option.some.inj hfrom)
          exact hpops _ hrunning hcall strokeId rfl
      | error error => exact iff_of_true nofun trivial
    | _ => exact iff_of_true nofun trivial
  | kill => cases henabled

/-- What cannot happen pops nothing. -/
theorem pops_of_step_eq_none {s : Scores} {event : ScoreStep} (h : step s event = none) :
    s.Pops event := by
  unfold Pops
  split
  · next i result =>
    rintro ⟨c, rest⟩ htask _ strokeId herased
    exfalso
    have hrunning : s.running[i]? = some ⟨c, rest⟩ := htask
    cases rest with
    | await point k =>
      obtain ⟨pieceId, rfl⟩ := ScoreAwait.eq_of_erased? herased
      have henabled : s.enabled (.resume i (.stroke (.ok result))) = true := by
        simp [enabled, hrunning, ScoreAwait.accepts]
      rw [step, if_pos henabled] at h
      cases h.symm.trans (Lib.Isolate.resume_step.mpr ⟨c, _, k, hrunning, rfl⟩)
    | _ => cases herased
  · trivial

/-- From the start of the bloc, the stack follows the log exactly in the runs in which every undo
pops what it has erased. -/
theorem tracks_iff (currentUserId : String) (events : List ScoreStep) :
    Always step Tracks (Lib.Isolate.start (.initial currentUserId)) events ↔
      EachStep step Pops (Lib.Isolate.start (.initial currentUserId)) events :=
  always_iff_eachStep (I := StrokesInv)
    (fun _ _ _ hinv _ hstep => strokesInv_step hinv hstep)
    (fun _ _ _ hinv htracks hstep => tracks_step_iff hinv htracks hstep)
    (fun _ _ h => pops_of_step_eq_none h) (strokesInv_initial currentUserId) rfl

/-- Where nothing is pending, every stroke has been stored or rejected. -/
theorem standing_eq_surviving {s : Scores} (h : s.StrokesInv) (hquiescent : s.Quiescent) :
    standing s.state.log = surviving s.state.log := by
  refine strokesThat_congr fun entry hentry stroke hstroke after => ?_
  have hmem : stroke ∈ addedStrokes s.state.log := List.mem_filterMap.mpr ⟨entry, hentry, hstroke⟩
  have hone : (addedStrokes s.state.log).countP (·.id == stroke.id) = 1 := by
    have hcount := List.count_eq_one_of_mem h.distinct (List.mem_map_of_mem hmem)
    rwa [List.count, List.countP_map] at hcount
  have hanswered : answered stroke.id s.state.log = 1 := by
    have hcounted := h.counted stroke.id
    rw [hquiescent, hone] at hcounted
    exact hcounted
  have hany : ∀ success, s.state.log.any (·.answers success stroke.id) =
      decide (0 < s.state.log.countP (·.answers success stroke.id)) := by
    intro success
    rw [Bool.eq_iff_iff, decide_eq_true_iff, List.countP_pos_iff, List.any_eq_true]
  rw [answered_eq] at hanswered
  rw [hany, hany, ← decide_not]
  congr 2
  rw [eq_iff_iff]
  omega

/-- In every run in which every undo pops what it has erased, the stack is, whenever nothing is
pending, what has been stored and not been erased since. -/
theorem undoStack_eq_surviving (currentUserId : String) (events : List ScoreStep)
    (h : EachStep step Pops (Lib.Isolate.start (.initial currentUserId)) events) :
    Always step (fun s => s.Quiescent → s.state.undoStack = surviving s.state.log)
      (Lib.Isolate.start (.initial currentUserId)) events := by
  refine Always.of_invariant (I := fun s => s.StrokesInv ∧ s.Tracks) ?_ ?_
    ⟨strokesInv_initial currentUserId, rfl⟩ h
  · intro s e t ⟨hinv, htracks⟩ hpops hstep
    exact ⟨strokesInv_step hinv hstep, (tracks_step_iff hinv htracks hstep).mpr hpops⟩
  · intro s ⟨hinv, htracks⟩ hquiescent
    rw [htracks, standing_eq_surviving hinv hquiescent]

/-! ### An undo that pops another stroke -/

/-- `ann` opens a piece and draws a stroke, which is stored. -/
def firstStroke : List ScoreStep :=
  let piece : Piece := ⟨"piece", "Etude", "sum", "etude.pdf", "ann", none, [], .sinceEpoch 0,
    .sinceEpoch 0⟩
  [.call (.scoreOpened "piece"), .resume 0 .cancelled, .resume 0 (.piece (.ok piece)),
    .resume 0 (.basePdfPath (.ok none)), .resume 0 (.reads none), .call (.modeChanged .draw),
    .call (.strokeCompleted (.sinceEpoch 1) [⟨0, 0⟩, ⟨1, 1⟩]), .resume 0 (.stroke (.ok ()))]

/-- An undo that ends before the next stroke is drawn pops what it has erased. -/
theorem undoStack_eq_surviving_undone :
    Always step (fun s => s.Quiescent → s.state.undoStack = surviving s.state.log)
      (Lib.Isolate.start (.initial "ann"))
      (firstStroke ++ [.call .undoRequested, .resume 0 (.stroke (.ok ())),
        .call (.strokeCompleted ⟨2, by decide⟩ [⟨0, 1⟩, ⟨1, 0⟩]), .resume 0 (.stroke (.ok ()))]) :=
  undoStack_eq_surviving "ann" _ (by decide +kernel)

/-- A stroke that is drawn while the first one is erased is popped in its place. -/
theorem not_undoStack_eq_surviving : ∃ t, run step (Lib.Isolate.start (.initial "ann"))
    (firstStroke ++ [.call .undoRequested,
      .call (.strokeCompleted ⟨2, by decide⟩ [⟨0, 1⟩, ⟨1, 0⟩]), .resume 1 (.stroke (.ok ())),
      .resume 0 (.stroke (.ok ()))]) = some t ∧
    t.Quiescent ∧ t.state.undoStack ≠ surviving t.state.log := by
  have hrun : (run step (Lib.Isolate.start (.initial "ann"))
      (firstStroke ++ [.call .undoRequested,
        .call (.strokeCompleted ⟨2, by decide⟩ [⟨0, 1⟩, ⟨1, 0⟩]), .resume 1 (.stroke (.ok ())),
        .resume 0 (.stroke (.ok ()))])).map (fun t => (t.running.isEmpty,
          t.state.undoStack.map (·.id), (surviving t.state.log).map (·.id))) =
      some (true, ["stroke_1_0"], ["stroke_2_1"]) := by decide +kernel
  obtain ⟨t, ht, hstate⟩ := Option.map_eq_some_iff.mp hrun
  simp only [Prod.mk.injEq] at hstate
  refine ⟨t, ht, List.isEmpty_iff.mp hstate.1, fun heq => ?_⟩
  have hids := hstate.2.1.symm.trans ((congrArg (List.map (·.id)) heq).trans hstate.2.2)
  exact absurd hids (by decide)

end Scores

end Duet
