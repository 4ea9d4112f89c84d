import Duet.Score.Isolation
import Mathlib.Algebra.Order.Group.Int

/-!
# What `ScoreBloc` shows

The page that is shown, the layers and what is hidden of them, and the mask over all of it. Several
handlers write each of these, while the handlers of `Score.Bloc` are at their awaits.

## Main definitions

* `ScoreView` — the state of `ScoreBloc` with the handlers that run, and `ScoreView.step`.
* `ScoreView.Consistent` — the page is one of the score, and the layers are those of the piece.

## Main results

* `inv_step` — the state stays consistent as long as one piece is opened.
* `step_onCleanWorkspaceToggled` — every event commutes with the mask.
* `showsPiece` — both, for whole runs.
-/

namespace Duet

open Lib Async

inductive RegionIntent where
  | recordAudio | practice
  deriving DecidableEq, Repr

/-- A call of `AnnotationRepository` that changes an audio note. -/
inductive AudioNoteCall where
  | addAudioNote (pieceId : String) (note : AudioNote)
  | deleteAudioNote (pieceId noteId : String)
  deriving DecidableEq, Repr

/-- The state of the bloc: what the handlers of `Score.Bloc` read and write is in `scores`, with
those that run; `calls` are the calls for audio notes that have not come back. -/
structure ScoreView where
  scores : Scores
  pageCount : Int
  eraserActive : Bool
  activeRegion : Option Region
  regionIntent : Option RegionIntent
  audioPinsVisible : Bool
  cleanWorkspace : Bool
  seenNoteIds : List String
  calls : List AudioNoteCall

/-- An event of `Score.Bloc` is handled or its handler resumed, another one is handled, or a call for
an audio note comes back. -/
inductive ScoreViewEvent where
  | handled (e : ScoreEvent)
  | resumed (i : Nat) (reply : ScoreReply)
  | audioNotePlayed (noteId : String)
  | pageChanged (page : Int)
  | pageCountResolved (pageCount : Int)
  | inkLayerToggled (ownerId : String)
  | audioPinsToggled
  | cleanWorkspaceToggled
  | eraserToggled
  | regionSelectStarted (intent : RegionIntent)
  | regionDragUpdated (rect : Region)
  | regionSelectCompleted (rect : Region)
  | regionSelectionCleared
  | audioNoteSaved (note : AudioNote)
  | audioNoteDeleteRequested (noteId : String)
  | returned (i : Nat) (result : Except String Unit)

/-- `int.clamp`, an `ArgumentError` when the limits are in the wrong order. -/
def clampInt (x lowerLimit upperLimit : Int) : Option Int :=
  if upperLimit < lowerLimit then none else some (max lowerLimit (min upperLimit x))

namespace ScoreSession

/-- The owner's layer is toggled in the set of what is hidden, and every layer follows it. -/
def onInkLayerToggled (s : ScoreSession) (ownerId : String) : ScoreSession :=
  let hidden := if s.state.hiddenInkOwnerIds.contains ownerId
    then s.state.hiddenInkOwnerIds.filter (· ≠ ownerId)
    else s.state.hiddenInkOwnerIds ++ [ownerId]
  { s with
    state := { s.state with hiddenInkOwnerIds := hidden }
    layers := s.layers.map fun layer => { layer with visible := !hidden.contains layer.ownerId } }

/-- The layers are those of the piece, in the order of its participants, or there are none; each is
visible unless its owner is hidden, and has the strokes of the annotations that were handled last. -/
structure Projects (s : ScoreSession) : Prop where
  owners : s.layers = [] ∨ ∃ piece, s.piece = some piece ∧
    s.layers.map (·.ownerId) = piece.participantIds
  visible : ∀ layer ∈ s.layers,
    (layer.visible = true ↔ layer.ownerId ∉ s.state.hiddenInkOwnerIds)
  strokes : ∀ layer ∈ s.layers, ∃ annotations, s.shown = some annotations ∧
    layer.strokes = strokesForOwner annotations layer.ownerId

end ScoreSession

namespace ScoreView

/-- What the handlers of `Score.Bloc` share. -/
def session (s : ScoreView) : ScoreSession := s.scores.state

def modify (s : ScoreView) (f : ScoreSession → ScoreSession) : ScoreView :=
  { s with scores := { s.scores with state := f s.session } }

/-- `ScoreState.initial`. -/
def start (currentUserId : String) : ScoreView where
  scores := Lib.Isolate.start (.initial currentUserId)
  pageCount := 1
  eraserActive := false
  activeRegion := none
  regionIntent := none
  audioPinsVisible := true
  cleanWorkspace := false
  seenNoteIds := []
  calls := []

/-! ## The handlers -/

def onAudioNotePlayed (s : ScoreView) (noteId : String) : ScoreView :=
  if s.seenNoteIds.contains noteId then s else { s with seenNoteIds := s.seenNoteIds ++ [noteId] }

/-- `_onPageChanged`; an error of `clamp` leaves the state. -/
def onPageChanged (s : ScoreView) (page : Int) : ScoreView :=
  match clampInt page 0 (s.pageCount - 1) with
  | none => s
  | some currentPage => s.modify fun session => { session with currentPage }

def onPageCountResolved (s : ScoreView) (pageCount : Int) : ScoreView :=
  let pageCount := max 1 pageCount
  match clampInt s.session.currentPage 0 (pageCount - 1) with
  | none => s
  | some currentPage => { s.modify fun session => { session with currentPage } with pageCount }

/-- What `_onModeChanged` does besides changing the mode. -/
def leaving (s : ScoreView) : ScoreEvent → ScoreView
  | .modeChanged mode =>
    if s.session.mode = .regionSelect ∧ mode ≠ .regionSelect then
      { s with activeRegion := none, regionIntent := none }
    else s
  | _ => s

def onAudioPinsToggled (s : ScoreView) : ScoreView :=
  { s with audioPinsVisible := !s.audioPinsVisible }

def onCleanWorkspaceToggled (s : ScoreView) : ScoreView :=
  { s with cleanWorkspace := !s.cleanWorkspace }

def onEraserToggled (s : ScoreView) : ScoreView := { s with eraserActive := !s.eraserActive }

def onRegionSelectStarted (s : ScoreView) (intent : RegionIntent) : ScoreView :=
  { s.modify fun session => { session with mode := .regionSelect } with
    regionIntent := some intent
    activeRegion := none }

/-- `_onAudioNoteSaved`, up to its await. -/
def onAudioNoteSaved (s : ScoreView) (note : AudioNote) : ScoreView :=
  match s.session.piece with
  | none => s
  | some piece => { s with calls := s.calls ++ [.addAudioNote piece.id note] }

/-- `_onAudioNoteDeleteRequested`, up to its await. -/
def onAudioNoteDeleteRequested (s : ScoreView) (noteId : String) : ScoreView :=
  match s.session.piece with
  | none => s
  | some piece =>
    if s.session.notes.any fun note =>
      note.id == noteId && note.authorId == s.session.state.currentUserId
    then { s with calls := s.calls ++ [.deleteAudioNote piece.id noteId] }
    else s

/-- A call for an audio note has come back. -/
def onReturned (s : ScoreView) (i : Nat) (result : Except String Unit) : ScoreView :=
  let s := { s with calls := s.calls.eraseIdx i }
  match result with
  | .ok _ => s
  | .error error => s.modify fun session => session.failing error

/-- One event of the bloc. -/
def step (s : ScoreView) : ScoreViewEvent → Option ScoreView
  | .handled e => (Lib.Isolate.step ScoreEvent.program id s.scores (.call e)).map fun scores =>
      { s.leaving e with scores }
  | .resumed i reply => (s.scores.step (.resume i reply)).map fun scores => { s with scores }
  | .audioNotePlayed noteId => some (s.onAudioNotePlayed noteId)
  | .pageChanged page => some (s.onPageChanged page)
  | .pageCountResolved pageCount => some (s.onPageCountResolved pageCount)
  | .inkLayerToggled ownerId => some (s.modify fun session => session.onInkLayerToggled ownerId)
  | .audioPinsToggled => some s.onAudioPinsToggled
  | .cleanWorkspaceToggled => some s.onCleanWorkspaceToggled
  | .eraserToggled => some s.onEraserToggled
  | .regionSelectStarted intent => some (s.onRegionSelectStarted intent)
  | .regionDragUpdated rect => some { s with activeRegion := some rect }
  | .regionSelectCompleted rect => some { s with activeRegion := some rect }
  | .regionSelectionCleared => some { s with activeRegion := none, regionIntent := none }
  | .audioNoteSaved note => some (s.onAudioNoteSaved note)
  | .audioNoteDeleteRequested noteId => some (s.onAudioNoteDeleteRequested noteId)
  | .returned i result => if i < s.calls.length then some (s.onReturned i result) else none

/-- The page is one of the score, and the layers are those of the piece. -/
structure Consistent (s : ScoreView) : Prop where
  page_nonneg : 0 ≤ s.session.currentPage
  page_lt : s.session.currentPage < s.pageCount
  projects : s.session.Projects

end ScoreView

def ScoreViewEvent.isOpened : ScoreViewEvent → Bool
  | .handled (.scoreOpened _) => true
  | _ => false

theorem clampInt_eq_some {x upperLimit : Int} (h : 0 ≤ upperLimit) :
    clampInt x 0 upperLimit = some (max 0 (min upperLimit x)) :=
  if_neg (by omega)

/-! ## The layers -/

namespace ScoreSession

variable {s t : ScoreSession}

@[simp] theorem piece_updated {annotations : PieceAnnotations} :
    (s.updated annotations).piece = s.piece := by
  cases hpiece : s.piece <;> simp [ScoreSession.updated, ScoreBloc.onAnnotationsUpdated, hpiece]

@[simp] theorem currentPage_updated {annotations : PieceAnnotations} :
    (s.updated annotations).currentPage = s.currentPage := by
  unfold ScoreSession.updated
  split <;> rfl

/-- What the layers depend on, and the layers, are as they were. -/
theorem Projects.congr (h : s.Projects) (hpiece : t.piece = s.piece) (hlayers : t.layers = s.layers)
    (hhidden : t.state.hiddenInkOwnerIds = s.state.hiddenInkOwnerIds) (hshown : t.shown = s.shown) :
    t.Projects where
  owners := by
    rw [hpiece, hlayers]
    exact h.owners
  visible := by
    rw [hhidden, hlayers]
    exact h.visible
  strokes := by
    rw [hshown, hlayers]
    exact h.strokes

theorem Projects.updated (h : s.Projects) (annotations : PieceAnnotations) :
    (s.updated annotations).Projects := by
  cases hpiece : s.piece with
  | none => simpa [ScoreSession.updated, hpiece] using h
  | some piece =>
    rw [updated_of_some hpiece]
    refine ⟨.inr ⟨piece, hpiece, map_ownerId_projectLayers⟩, fun layer hlayer => ?_,
      fun layer hlayer => ⟨annotations, rfl, strokes_of_mem_projectLayers hlayer⟩⟩
    obtain ⟨i, hi, rfl⟩ := List.mem_mapIdx.mp hlayer
    simp [participantLayer]

theorem Projects.onInkLayerToggled (h : s.Projects) (ownerId : String) :
    (s.onInkLayerToggled ownerId).Projects where
  owners := by
    refine h.owners.imp (fun hnil => ?_) fun ⟨piece, hpiece, howners⟩ => ⟨piece, hpiece, ?_⟩
    · simp [ScoreSession.onInkLayerToggled, hnil]
    · rw [← howners]
      simp [ScoreSession.onInkLayerToggled]
  visible layer hlayer := by
    obtain ⟨shown, hshown, rfl⟩ := List.mem_map.mp hlayer
    simp [ScoreSession.onInkLayerToggled]
  strokes layer hlayer := by
    obtain ⟨shown, hshown, rfl⟩ := List.mem_map.mp hlayer
    exact h.strokes shown hshown

/-- A piece that becomes ready finds no layers. -/
theorem Projects.opened (h : s.Projects) (hpiece : s.piece = none) (n : Nat) (piece : Piece)
    (lastOpenedAt : Option DateTime) : (s.opened n piece lastOpenedAt).Projects := by
  have hnil : s.layers = [] := by
    obtain hnil | ⟨piece', hpiece', -⟩ := h.owners
    · exact hnil
    · cases hpiece.symm.trans hpiece'
  refine ⟨.inl hnil, ?_, ?_⟩ <;> simp [ScoreSession.opened, hnil]

/-- A segment keeps the layers those of the piece, unless a second piece becomes ready. -/
theorem Projects.of_segment {e : ScoreEvent} {from? : Option (ScoreAwait × ScoreReply)}
    {stop : Stop ScoreAwait ScoreFailure Unit} (h : s.Projects)
    (hready : ∀ n piece reply, from? = some (.readWatermark n piece, reply) → s.piece = none)
    (hseg : ScoreSegment e from? s stop t) : t.Projects := by
  cases hseg with
  | opened _ n _ piece reads => exact h.opened (hready _ _ _ rfl) n piece _
  | updated _ annotations added => exact (h.updated annotations).congr rfl rfl rfl rfl
  | _ => exact h.congr rfl rfl rfl rfl

/-- A segment leaves the page, or turns to the first one. -/
theorem currentPage_of_segment {e : ScoreEvent} {from? : Option (ScoreAwait × ScoreReply)}
    {stop : Stop ScoreAwait ScoreFailure Unit} (hseg : ScoreSegment e from? s stop t) :
    t.currentPage = s.currentPage ∨ t.currentPage = 0 := by
  cases hseg with
  | opened => exact .inr rfl
  | updated => exact .inl currentPage_updated
  | _ => exact .inl rfl

end ScoreSession

/-! ## The opens -/

/-- The opens that await at a point: one or none. -/
def opensAt (point? : Option ScoreAwait) : Nat :=
  (point?.elim [] fun point => point.open?.toList).length

/-- A piece is ready. -/
def ScoreSession.pieces (s : ScoreSession) : Nat := s.piece.toList.length

/-- An open that goes on awaits the next thing, has failed, or has made the piece ready. -/
theorem opens_of_segment {e : ScoreEvent} {from? : Option (ScoreAwait × ScoreReply)}
    {stop : Stop ScoreAwait ScoreFailure Unit} {s t : ScoreSession}
    (hseg : ScoreSegment e from? s stop t) :
    opensAt stop.point? + t.pieces + s.opens.length ≤
      opensAt (from?.map Prod.fst) + s.pieces + t.opens.length := by
  cases hseg <;>
    simp [opensAt, ScoreSession.pieces, Stop.point?, ScoreAwait.open?, ScoreSession.opening,
      ScoreSession.loading, ScoreSession.failed, ScoreSession.opened, ScoreSession.pushed,
      ScoreSession.issue, ScoreSession.receive, ScoreSession.failing, ScoreSession.dropped]
  grind

theorem opens_le_of_segment {e : ScoreEvent} {from? : Option (ScoreAwait × ScoreReply)}
    {stop : Stop ScoreAwait ScoreFailure Unit} {s t : ScoreSession}
    (hseg : ScoreSegment e from? s stop t) : s.opens.length ≤ t.opens.length := by
  cases hseg with
  | opening s pieceId => simp [ScoreSession.opening]
  | updated => simp
  | _ => exact .refl

/-- A handler that is resumed opens nothing. -/
theorem opens_le_of_resumed {e : ScoreEvent} {from? : ScoreAwait × ScoreReply}
    {stop : Stop ScoreAwait ScoreFailure Unit} {s t : ScoreSession}
    (hseg : ScoreSegment e (some from?) s stop t) : t.opens.length ≤ s.opens.length := by
  cases hseg <;> exact .refl

theorem opens_le_add_of_segment {e : ScoreEvent} {stop : Stop ScoreAwait ScoreFailure Unit}
    {s t : ScoreSession} (hseg : ScoreSegment e none s stop t) :
    t.opens.length ≤ s.opens.length + if (ScoreViewEvent.handled e).isOpened then 1 else 0 := by
  cases hseg with
  | opening s pieceId => simp [ScoreSession.opening, ScoreViewEvent.isOpened]
  | updated => simp
  | _ => exact Nat.le_add_right _ _

theorem Scores.step_eq_some {s t : Scores} {e : ScoreStep} : s.step e = some t ↔
    s.enabled e = true ∧ Lib.Isolate.step ScoreEvent.program id s e = some t := by
  simp [Scores.step]

namespace ScoreView

variable {s t : ScoreView}

theorem pageCount_leaving (e : ScoreEvent) : (s.leaving e).pageCount = s.pageCount := by
  unfold leaving
  split
  · split_ifs <;> rfl
  · rfl

/-- The opens that are pending. -/
def pendingOpens (s : ScoreView) : Nat :=
  (s.scores.collect fun _ point => point.open?.toList).length

/-- Every open is pending, has made its piece ready, or has failed; so the first one finds no piece
ready before it, and the layers are those of its piece. -/
structure Inv (s : ScoreView) : Prop where
  obeys : s.scores.ObeysOn ScoreSegment
  opens : s.pendingOpens + s.session.pieces ≤ s.session.opens.length
  page_nonneg : 0 ≤ s.session.currentPage
  page_lt : s.session.currentPage < s.pageCount
  projects : s.session.opens.length ≤ 1 → s.session.Projects

theorem inv_start (userId : String) : (start userId).Inv where
  obeys := nofun
  opens := .refl
  page_nonneg := Int.le_refl 0
  page_lt := Int.zero_lt_one
  projects _ := ⟨.inl rfl, nofun, nofun⟩

/-! ## The steps -/

/-- The state stays consistent where neither the handlers nor the number of pages change. -/
theorem Inv.congr (h : s.Inv) (hscores : t.scores = s.scores) (hcount : t.pageCount = s.pageCount) :
    t.Inv := by
  obtain ⟨scores, pageCount⟩ := s
  obtain rfl : t.scores = scores := hscores
  obtain rfl : t.pageCount = pageCount := hcount
  exact ⟨h.obeys, h.opens, h.page_nonneg, h.page_lt, h.projects⟩

/-- The state stays consistent where the page is left, and the layers are those of the piece. -/
theorem Inv.modify (h : s.Inv) {f : ScoreSession → ScoreSession}
    (hpiece : (f s.session).piece = s.session.piece) (hopens : (f s.session).opens = s.session.opens)
    (hpage : (f s.session).currentPage = s.session.currentPage)
    (hprojects : s.session.Projects → (f s.session).Projects) : (s.modify f).Inv where
  obeys := h.obeys
  opens := by
    have hpieces : (f s.session).pieces = s.session.pieces := congrArg (·.toList.length) hpiece
    change s.pendingOpens + (f s.session).pieces ≤ (f s.session).opens.length
    rw [hpieces, hopens]
    exact h.opens
  page_nonneg := hpage.symm ▸ h.page_nonneg
  page_lt := hpage.symm ▸ h.page_lt
  projects hone := hprojects (h.projects (hopens ▸ hone))

/-- The state stays consistent where a page of the score is turned to. -/
theorem Inv.turn (h : s.Inv) {currentPage pageCount : Int} (hnonneg : 0 ≤ currentPage)
    (hlt : currentPage < pageCount) :
    Inv { s.modify fun session => { session with currentPage } with pageCount } where
  obeys := h.obeys
  opens := h.opens
  page_nonneg := hnonneg
  page_lt := hlt
  projects hone := (h.projects hone).congr rfl rfl rfl rfl

theorem Inv.onPageChanged (h : s.Inv) (page : Int) : (s.onPageChanged page).Inv := by
  have hpages : 0 ≤ s.pageCount - 1 := by have := h.page_nonneg; have := h.page_lt; omega
  rw [ScoreView.onPageChanged, clampInt_eq_some hpages]
  exact h.turn (by omega) (by omega)

theorem Inv.onPageCountResolved (h : s.Inv) (pageCount : Int) :
    (s.onPageCountResolved pageCount).Inv := by
  have hpages : 0 ≤ max 1 pageCount - 1 := by omega
  simp only [ScoreView.onPageCountResolved]
  rw [clampInt_eq_some hpages]
  exact h.turn (by omega) (by omega)

/-- A handler goes on by one segment. -/
theorem Inv.of_segment (h : s.Inv) {scores : Scores} {e : ScoreEvent}
    {from? : Option (ScoreAwait × ScoreReply)} {stop : Stop ScoreAwait ScoreFailure Unit}
    (hobeys : scores.ObeysOn ScoreSegment) (hseg : ScoreSegment e from? s.session stop scores.state)
    (hmoves : Lib.Isolate.Moves s.scores scores e (from?.map Prod.fst) stop) :
    Inv { s with scores } := by
  have hcount := opens_of_segment hseg
  have hcollect := (hmoves.collect fun _ point => point.open?.toList).length_eq
  have hopens := h.opens
  have hnonneg := h.page_nonneg
  have hlt := h.page_lt
  have hpage := ScoreSession.currentPage_of_segment hseg
  simp only [List.length_append] at hcollect
  simp only [pendingOpens, opensAt] at hcount hopens
  refine ⟨hobeys, ?_, ?_, ?_, fun hone => ?_⟩
  · change (scores.collect fun _ point => point.open?.toList).length + scores.state.pieces ≤
      scores.state.opens.length
    omega
  · change 0 ≤ scores.state.currentPage
    omega
  · change scores.state.currentPage < s.pageCount
    omega
  · have hone' := (opens_le_of_segment hseg).trans hone
    refine (h.projects hone').of_segment (fun n piece reply hfrom => ?_) hseg
    -- the open is pending, and no other one is
    have hmem : n ∈ s.scores.collect fun _ point => point.open?.toList :=
      hmoves.before _ (by simp [hfrom, ScoreAwait.open?])
    have hpos := List.length_pos_of_mem hmem
    have hpieces : s.session.piece.toList.length = 0 := by
      change s.session.pieces = 0
      omega
    simpa using hpieces

theorem inv_step {e : ScoreViewEvent} (h : s.Inv) (hstep : step s e = some t) : t.Inv := by
  cases e with
  | handled e =>
    simp only [step, Option.map_eq_some_iff] at hstep
    obtain ⟨scores, hscores, rfl⟩ := hstep
    obtain ⟨hobeys, stop, hseg, hmoves⟩ :=
      Lib.Isolate.obeysOn_call follows_program h.obeys hscores
    exact (h.of_segment hobeys hseg hmoves).congr rfl (pageCount_leaving e)
  | resumed i reply =>
    simp only [step, Option.map_eq_some_iff] at hstep
    obtain ⟨scores, hscores, rfl⟩ := hstep
    obtain ⟨-, hscores⟩ := Scores.step_eq_some.mp hscores
    obtain ⟨hobeys, c, point, k, stop, -, hseg, hmoves⟩ :=
      Lib.Isolate.obeysOn_resume follows_program h.obeys hscores
    exact h.of_segment hobeys hseg hmoves
  | audioNotePlayed noteId =>
    obtain rfl := Option.some.inj hstep
    refine h.congr ?_ ?_ <;> (unfold onAudioNotePlayed; split_ifs <;> rfl)
  | pageChanged page =>
    obtain rfl := Option.some.inj hstep
    exact h.onPageChanged page
  | pageCountResolved pageCount =>
    obtain rfl := Option.some.inj hstep
    exact h.onPageCountResolved pageCount
  | inkLayerToggled ownerId =>
    obtain rfl := Option.some.inj hstep
    exact h.modify rfl rfl rfl fun hprojects => hprojects.onInkLayerToggled ownerId
  | regionSelectStarted intent =>
    obtain rfl := Option.some.inj hstep
    exact (h.modify (f := fun session => { session with mode := .regionSelect }) rfl rfl rfl
      fun hprojects => hprojects.congr rfl rfl rfl rfl).congr rfl rfl
  | audioNoteSaved note =>
    obtain rfl := Option.some.inj hstep
    refine h.congr ?_ ?_ <;> (unfold onAudioNoteSaved; split <;> rfl)
  | audioNoteDeleteRequested noteId =>
    obtain rfl := Option.some.inj hstep
    refine h.congr ?_ ?_ <;> (unfold onAudioNoteDeleteRequested; split <;> try split_ifs) <;> rfl
  | returned i result =>
    simp only [step] at hstep
    split_ifs at hstep
    obtain rfl := Option.some.inj hstep
    have hreturned : Inv { s with calls := s.calls.eraseIdx i } := h.congr rfl rfl
    cases result with
    | ok _ => exact hreturned
    | error error =>
      exact hreturned.modify (f := fun session => session.failing error) rfl rfl rfl
        fun hprojects => hprojects.congr rfl rfl rfl rfl
  | _ =>
    obtain rfl := Option.some.inj hstep
    exact h.congr rfl rfl

theorem Inv.consistent (h : s.Inv) (hone : s.session.opens.length ≤ 1) : s.Consistent :=
  ⟨h.page_nonneg, h.page_lt, h.projects hone⟩

/-- No more is opened than what is handled. -/
theorem opens_step {e : ScoreViewEvent} (h : s.Inv) (hstep : step s e = some t) :
    t.session.opens.length ≤ s.session.opens.length + if e.isOpened then 1 else 0 := by
  cases e with
  | handled e =>
    simp only [step, Option.map_eq_some_iff] at hstep
    obtain ⟨scores, hscores, rfl⟩ := hstep
    obtain ⟨-, stop, hseg, -⟩ := Lib.Isolate.obeysOn_call follows_program h.obeys hscores
    exact opens_le_add_of_segment hseg
  | resumed i reply =>
    simp only [step, Option.map_eq_some_iff] at hstep
    obtain ⟨scores, hscores, rfl⟩ := hstep
    obtain ⟨-, hscores⟩ := Scores.step_eq_some.mp hscores
    obtain ⟨-, c, point, k, stop, -, hseg, -⟩ :=
      Lib.Isolate.obeysOn_resume follows_program h.obeys hscores
    exact opens_le_of_resumed hseg
  | returned i result => cases result <;> grind [step, onReturned, modify, session,
      ScoreSession.failing]
  | _ => grind [step, onAudioNotePlayed, onPageChanged, onPageCountResolved, onAudioPinsToggled,
      onCleanWorkspaceToggled, onEraserToggled, onRegionSelectStarted, onAudioNoteSaved,
      onAudioNoteDeleteRequested, modify, session, ScoreSession.onInkLayerToggled]

theorem opens_run {events : List ScoreViewEvent} (h : s.Inv) (hrun : run step s events = some t) :
    t.session.opens.length ≤ s.session.opens.length + events.countP (·.isOpened) := by
  induction events generalizing s with
  | nil =>
    obtain rfl := Option.some.inj hrun
    exact Nat.le_add_right _ _
  | cons e events ih =>
    obtain ⟨u, hu, hrun⟩ := run_cons_eq_some.mp hrun
    have hfirst := opens_step h hu
    have hrest := ih (inv_step h hu) hrun
    rw [List.countP_cons]
    omega

/-! ## The mask -/

@[simp] theorem session_onCleanWorkspaceToggled : s.onCleanWorkspaceToggled.session = s.session :=
  rfl

@[simp] theorem onCleanWorkspaceToggled_twice :
    s.onCleanWorkspaceToggled.onCleanWorkspaceToggled = s := by
  simp [onCleanWorkspaceToggled]

theorem leaving_onCleanWorkspaceToggled (e : ScoreEvent) :
    s.onCleanWorkspaceToggled.leaving e = (s.leaving e).onCleanWorkspaceToggled := by
  unfold leaving
  split
  · rw [session_onCleanWorkspaceToggled]
    split_ifs <;> rfl
  · rfl

/-- No event reads the mask, and none but its own writes it. -/
theorem step_onCleanWorkspaceToggled (e : ScoreViewEvent) :
    step s.onCleanWorkspaceToggled e = (step s e).map onCleanWorkspaceToggled := by
  cases e with
  | handled e =>
    simp only [step, Option.map_map, leaving_onCleanWorkspaceToggled]
    rfl
  | resumed i reply =>
    simp only [step, Option.map_map]
    rfl
  | returned i result => cases result <;> grind [step, onReturned, onCleanWorkspaceToggled, modify,
      session]
  | _ => grind [step, onAudioNotePlayed, onPageChanged, onPageCountResolved, onAudioPinsToggled,
      onCleanWorkspaceToggled, onEraserToggled, onRegionSelectStarted, onAudioNoteSaved,
      onAudioNoteDeleteRequested, modify, session]

/-- The mask runs along. -/
theorem run_onCleanWorkspaceToggled (events : List ScoreViewEvent) :
    run step s.onCleanWorkspaceToggled events =
      (run step s events).map onCleanWorkspaceToggled := by
  induction events generalizing s with
  | nil => rfl
  | cons e events ih =>
    rw [run, step_onCleanWorkspaceToggled, Option.bind_map, run, Option.map_bind]
    congr 1
    funext t
    exact ih

/-- Toggling the mask twice leaves the run as it is. -/
theorem run_toggleTwice (events : List ScoreViewEvent) (after : List ScoreViewEvent) :
    run step s (.cleanWorkspaceToggled :: events ++ .cleanWorkspaceToggled :: after) =
      run step s (events ++ after) := by
  rw [run_append, run_append]
  change ((run step s.onCleanWorkspaceToggled events).bind fun t =>
    run step t.onCleanWorkspaceToggled after) = _
  rw [run_onCleanWorkspaceToggled, Option.bind_map]
  simp only [Function.comp_def, onCleanWorkspaceToggled_twice]

/-- While one piece is opened at most, the page is one of the score and the layers are those of the
piece, whatever happens and in whatever order; and a run ends in the same state where the mask has
been toggled twice more. -/
theorem showsPiece (userId : String) :
    (∀ events s, events.countP (·.isOpened) ≤ 1 → run step (start userId) events = some s →
      s.Consistent) ∧
    ∀ before between after : List ScoreViewEvent,
      run step (start userId) (before ++ .cleanWorkspaceToggled :: between ++
        .cleanWorkspaceToggled :: after) = run step (start userId) (before ++ between ++ after) := by
  refine ⟨fun events s hone hrun => ?_, fun before between after => ?_⟩
  · have hinv := run_invariant' (fun s e t => inv_step) (inv_start userId) hrun
    have hopens : s.session.opens.length ≤ 0 + _ := opens_run (inv_start userId) hrun
    exact hinv.consistent (by omega)
  · rw [List.append_assoc, run_append, List.append_assoc, run_append (start userId) before]
    congr 1
    funext t
    exact run_toggleTwice between after

/-! ### An open piece -/

/-- A piece with two participants. -/
def duetPiece : Piece := ⟨"piece", "Sonata", "checksum", "base.pdf", "owner", some "Olga",
  [⟨"guest", some "Gil", none⟩], .sinceEpoch 0, .sinceEpoch 0⟩

/-- What the owner has drawn on it. -/
def duetAnnotations : PieceAnnotations :=
  ⟨"piece", [⟨"owner", .owner, [⟨"stroke", "owner", 0, "p0", []⟩], none⟩], []⟩

/-- The guest opens it; the number of its pages is known before it is ready, they go to a page that
is not there, and the owner's ink is hidden before it arrives. -/
def opensDuet : List ScoreViewEvent :=
  [.handled (.scoreOpened "piece"), .pageCountResolved 3, .resumed 0 .cancelled,
    .resumed 0 (.piece (.ok duetPiece)), .resumed 0 (.basePdfPath (.ok none)),
    .resumed 0 (.reads none), .pageChanged 7, .inkLayerToggled "owner",
    .handled (.snapshot 0 duetAnnotations), .handled .annotationsUpdated]

theorem showsPiece_opensDuet : ∃ s, run step (start "guest") opensDuet = some s ∧ s.Consistent ∧
    s.session.currentPage = 2 ∧
    s.session.layers.map (fun layer => (layer.ownerId, layer.strokes.length, layer.visible)) =
      [("owner", 1, false), ("guest", 0, true)] ∧
    run step (start "guest") (.cleanWorkspaceToggled :: opensDuet ++ [.cleanWorkspaceToggled]) =
      some s := by
  obtain ⟨s, hrun, hs⟩ : ∃ s, run step (start "guest") opensDuet = some s ∧
      (s.session.currentPage = 2 ∧ s.session.layers.map (fun layer =>
        (layer.ownerId, layer.strokes.length, layer.visible)) =
          [("owner", 1, false), ("guest", 0, true)]) := by
    refine ⟨_, rfl, ?_⟩
    decide +kernel
  refine ⟨s, hrun, (showsPiece "guest").1 opensDuet s (by decide) hrun, hs.1, hs.2, ?_⟩
  rw [← hrun, ← List.append_nil opensDuet]
  exact (showsPiece "guest").2 [] opensDuet []

end ScoreView

end Duet
