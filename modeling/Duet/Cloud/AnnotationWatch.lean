import Duet.Cloud.AnnotationRepository
import Duet.Lib.Transition

/-!
# The stream of a piece's annotations

`watch` listens to the layers, the notes and the piece while somebody listens to its stream, and
combines what each has brought last. What has been brought, and the list of the subscriptions, belong
to the stream and not to one listen; when the last listener cancels, a loop over the list cancels the
subscriptions one after the other and awaits each, and it fails once the list has grown.

## Main definitions

* `AnnotationWatch` — the stream, and what it has emitted.
* `AnnotationWatch.step` — a listener comes or goes, a snapshot arrives, or a loop goes on.
* `Settling` — what the loops that run have cancelled.

## Main results

* `emitsFresh_iff` — when what is emitted is from the listen it is emitted in, and that no
  subscription is left once the last listener has gone and the loops have ended.
-/

namespace Duet

open Lib

inductive WatchSource where
  | layers | notes | piece
  deriving DecidableEq, Repr

/-- What a source brings: the documents of a collection, or the piece's. -/
inductive SourceSnapshot where
  | layers (docs : List (DocPath × Fields))
  | notes (docs : List (DocPath × Fields))
  | piece (data : Option Fields)
  deriving DecidableEq, Repr

def SourceSnapshot.source : SourceSnapshot → WatchSource
  | layers _ => .layers
  | notes _ => .notes
  | piece _ => .piece

structure SourceSubscription where
  id : Nat
  source : WatchSource
  deriving DecidableEq, Repr

/-- A value, and the listen in which it was received. -/
structure Received (α : Type) where
  listen : Nat
  value : α
  deriving DecidableEq, Repr

/-- The loop of `stop`: how long the list was when it began, how many subscriptions it has cancelled,
and the one whose cancellation it awaits. -/
structure Stopping where
  length : Nat
  index : Nat
  awaited : SourceSubscription
  deriving DecidableEq, Repr

/-- What is emitted in a listen, and the listens its parts are from. -/
structure WatchEmission where
  listen : Nat
  layersFrom : Nat
  notesFrom : Nat
  pieceFrom : Option Nat
  annotations : PieceAnnotations
  deriving DecidableEq, Repr

/-- The listeners, and how often the first one has come; the values that the sources have brought
last; the subscriptions that have been opened, those in the list and those that are not cancelled;
the loops that run, and what has been emitted. -/
structure AnnotationWatch where
  listeners : Nat
  listen : Nat
  layers : Option (Received (List InkLayer))
  notes : Option (Received (List AudioNote))
  pieceLoaded : Bool
  ownerId : Option (Received (Option String))
  opened : Nat
  subscriptions : List SourceSubscription
  live : List SourceSubscription
  stops : List Stopping
  emitted : List WatchEmission
  deriving DecidableEq, Repr

inductive WatchEvent where
  | listen
  | cancel
  | snapshot (subscription : SourceSubscription) (snapshot : SourceSnapshot)
  | cancelled (i : Nat)
  deriving DecidableEq, Repr

namespace AnnotationWatch

def initial : AnnotationWatch := ⟨0, 0, none, none, false, none, 0, [], [], [], []⟩

/-! ## Snapshots -/

/-- A source's values are set; a document that cannot be read throws before `emit` is reached. -/
def receive (s : AnnotationWatch) : SourceSnapshot → AnnotationWatch × Bool
  | .layers docs =>
    match Firestore.layerDocs docs with
    | none => (s, false)
    | some layers => ({ s with layers := some ⟨s.listen, layers⟩ }, true)
  | .notes docs =>
    match Firestore.noteDocs (docs.filter fun entry => !isAudioNoteTombstoned entry.2) with
    | none => (s, false)
    | some notes => ({ s with notes := some ⟨s.listen, notes⟩ }, true)
  | .piece data =>
    let ownerId := match data with
      | none => some none
      | some data => (data.read "ownerId").orNull Value.asString
    match ownerId with
    | none => ({ s with pieceLoaded := true }, false)
    | some ownerId => ({ s with pieceLoaded := true, ownerId := some ⟨s.listen, ownerId⟩ }, true)

/-- What is emitted from the values. -/
def emission (s : AnnotationWatch) (pieceId : String) (layers : Received (List InkLayer))
    (notes : Received (List AudioNote)) : WatchEmission :=
  ⟨s.listen, layers.listen, notes.listen, s.ownerId.map (·.listen),
    ⟨pieceId, layers.value.map (Firestore.emittedLayer (s.ownerId.bind (·.value))), notes.value⟩⟩

/-- `emit`: to the listeners, once there are values of every source. -/
def emit (s : AnnotationWatch) (pieceId : String) : AnnotationWatch :=
  match s.layers, s.notes with
  | some layers, some notes =>
    if s.pieceLoaded ∧ 0 < s.listeners then
      { s with emitted := s.emitted ++ [s.emission pieceId layers notes] }
    else s
  | _, _ => s

def onSnapshot (s : AnnotationWatch) (pieceId : String) (snapshot : SourceSnapshot) :
    AnnotationWatch :=
  let (s, readable) := s.receive snapshot
  if readable then s.emit pieceId else s

/-! ## Listeners -/

/-- `start`. -/
def start (s : AnnotationWatch) : AnnotationWatch :=
  let opened := [⟨s.opened, .layers⟩, ⟨s.opened + 1, .notes⟩, ⟨s.opened + 2, .piece⟩]
  { s with
    listen := s.listen + 1
    opened := s.opened + 3
    subscriptions := s.subscriptions ++ opened
    live := s.live ++ opened }

/-- A loop goes on, where it stands in the list: it cancels the next subscription, it ends, or it
fails because the list is not as long as it was. -/
def advance (s : AnnotationWatch) (length index : Nat) : AnnotationWatch × Option Stopping :=
  if s.subscriptions.length ≠ length then (s, none)
  else
    match s.subscriptions[index]? with
    | none => ({ s with subscriptions := [] }, none)
    | some subscription =>
      ({ s with live := s.live.filter (· ≠ subscription) },
        some ⟨length, index + 1, subscription⟩)

/-- `stop`, up to its first await. -/
def stop (s : AnnotationWatch) : AnnotationWatch :=
  let (s, stopping) := s.advance s.subscriptions.length 0
  { s with stops := s.stops ++ stopping.toList }

/-- The `i`-th loop goes on. The loops that await the same cancellation go on in the order in which
they began. -/
def cancelled (s : AnnotationWatch) (i : Nat) : Option AnnotationWatch :=
  match s.stops[i]? with
  | none => none
  | some stopping =>
    if ∀ earlier ∈ s.stops.take i, earlier.awaited ≠ stopping.awaited then
      let (t, next) := s.advance stopping.length stopping.index
      some { t with stops := s.stops.take i ++ next.toList ++ s.stops.drop (i + 1) }
    else none

/-- One event. Subscriptions that have been cancelled bring nothing. -/
def step (pieceId : String) (s : AnnotationWatch) : WatchEvent → Option AnnotationWatch
  | .listen =>
    let t := { s with listeners := s.listeners + 1 }
    some (if s.listeners = 0 then t.start else t)
  | .cancel =>
    match s.listeners with
    | 0 => none
    | 1 => some (stop { s with listeners := 0 })
    | n + 1 => some { s with listeners := n }
  | .snapshot subscription snapshot =>
    if subscription ∈ s.live ∧ subscription.source = snapshot.source then
      some (s.onSnapshot pieceId snapshot)
    else none
  | .cancelled i => s.cancelled i

/-! ## What is to hold -/

/-- All parts of an emission are from the listen it was emitted in. -/
def Fresh (e : WatchEmission) : Prop :=
  e.layersFrom = e.listen ∧ e.notesFrom = e.listen ∧ e.pieceFrom = some e.listen

instance (e : WatchEmission) : Decidable (Fresh e) := inferInstanceAs (Decidable (_ ∧ _ ∧ _))

/-- What is emitted is from the present listen, and no subscription is left once nobody listens and
the loops have ended. -/
structure EmitsFresh (s : AnnotationWatch) : Prop where
  fresh : ∀ e ∈ s.emitted, Fresh e
  noneLeft : s.listeners = 0 → s.stops = [] → s.live = []

/-- There is a value of the source. -/
def Loaded (s : AnnotationWatch) : WatchSource → Prop
  | .layers => s.layers.isSome
  | .notes => s.notes.isSome
  | .piece => s.pieceLoaded

/-- The source's value was received in the present listen. -/
def Current (s : AnnotationWatch) : WatchSource → Prop
  | .layers => ∃ layers ∈ s.layers, layers.listen = s.listen
  | .notes => ∃ notes ∈ s.notes, notes.listen = s.listen
  | .piece => ∃ ownerId ∈ s.ownerId, ownerId.listen = s.listen

/-- While somebody listens, a snapshot that can be read arrives when one of the other sources has
brought no value yet, or when both have brought theirs in the present listen. -/
def ArrivesFresh (s : AnnotationWatch) : WatchEvent → Prop
  | .snapshot subscription snapshot => subscription ∈ s.live →
      subscription.source = snapshot.source → (s.receive snapshot).2 = true → 0 < s.listeners →
      (∀ other, other ≠ snapshot.source → s.Loaded other) →
        ∀ other, other ≠ snapshot.source → s.Current other
  | _ => True

/-! ## The loops -/

/-- The loops that run stand in the list one behind the other, the later ones for a longer list; what
a loop has passed is cancelled. While somebody listens the list has grown under all of them; once
nobody does, one of them goes through the whole list, if anything is left. -/
structure Settling (s : AnnotationWatch) : Prop where
  ids : ∀ subscription ∈ s.subscriptions, subscription.id < s.opened
  live_mem : ∀ subscription ∈ s.live, subscription ∈ s.subscriptions
  length_le : ∀ stopping ∈ s.stops, stopping.length ≤ s.subscriptions.length
  index_le : ∀ stopping ∈ s.stops, stopping.index ≤ stopping.length
  awaited : ∀ stopping ∈ s.stops, 0 < stopping.index ∧
    s.subscriptions[stopping.index - 1]? = some stopping.awaited
  passed : ∀ stopping ∈ s.stops, ∀ i < stopping.index, ∀ subscription,
    s.subscriptions[i]? = some subscription → subscription ∉ s.live
  order : s.stops.Pairwise fun a b => a.length < b.length ∧ b.index ≤ a.index
  grown : 0 < s.listeners → ∀ stopping ∈ s.stops, stopping.length < s.subscriptions.length
  ends : s.listeners = 0 → s.live = [] ∨
    ∃ stopping ∈ s.stops, stopping.length = s.subscriptions.length

variable {s t : AnnotationWatch} {pieceId : String}

theorem settling_initial : initial.Settling where
  ids := nofun
  live_mem := nofun
  length_le := nofun
  index_le := nofun
  awaited := nofun
  passed := nofun
  order := .nil
  grown := nofun
  ends _ := .inl rfl

theorem split_of_getElem? {α : Type} {l : List α} {i : Nat} {a : α} (h : l[i]? = some a) :
    l = l.take i ++ a :: l.drop (i + 1) := by
  obtain ⟨hi, rfl⟩ := List.getElem?_eq_some_iff.mp h
  rw [← List.drop_eq_getElem_cons, List.take_append_drop]

/-- A loop that fails or has ended is gone. -/
theorem Settling.failed {earlier later : List Stopping} {stopping : Stopping} (h : s.Settling)
    (hstops : s.stops = earlier ++ stopping :: later)
    (hlength : s.subscriptions.length ≠ stopping.length) :
    Settling { s with stops := earlier ++ later } := by
  have hmem : ∀ other ∈ earlier ++ later, other ∈ s.stops := by
    intro other hother
    rw [hstops]
    grind
  refine { h with
    length_le := fun other hother => h.length_le other (hmem other hother)
    index_le := fun other hother => h.index_le other (hmem other hother)
    awaited := fun other hother => h.awaited other (hmem other hother)
    passed := fun other hother => h.passed other (hmem other hother)
    order := ?_
    grown := fun hlisteners other hother => h.grown hlisteners other (hmem other hother)
    ends := fun hlisteners => ?_ }
  · have horder := h.order
    rw [hstops] at horder
    exact horder.sublist ((List.Sublist.refl _).append (List.sublist_cons_self _ _))
  · refine (h.ends hlisteners).imp_right ?_
    rintro ⟨other, hother, hlast⟩
    rw [hstops] at hother
    refine ⟨other, ?_, hlast⟩
    grind

/-- A loop that reaches the end of the list has cancelled everything, and no other loop runs. -/
theorem Settling.reached {earlier later : List Stopping} {stopping : Stopping} (h : s.Settling)
    (hstops : s.stops = earlier ++ stopping :: later)
    (hlength : s.subscriptions.length = stopping.length)
    (hend : s.subscriptions[stopping.index]? = none) :
    s.live = [] ∧ earlier = [] ∧ later = [] := by
  have hmem : stopping ∈ s.stops := by simp [hstops]
  have hle := h.index_le stopping hmem
  have hge := List.getElem?_eq_none_iff.mp hend
  have horder := h.order
  rw [hstops, List.pairwise_append, List.pairwise_cons] at horder
  obtain ⟨-, ⟨hlater, -⟩, hearlier⟩ := horder
  refine ⟨?_, ?_, ?_⟩
  · rw [List.eq_nil_iff_forall_not_mem]
    intro subscription hlive
    obtain ⟨i, hi⟩ := List.mem_iff_getElem?.mp (h.live_mem subscription hlive)
    have hlt := (List.getElem?_eq_some_iff.mp hi).1
    exact h.passed stopping hmem i (by omega) subscription hi hlive
  · rw [List.eq_nil_iff_forall_not_mem]
    intro other hother
    have := hearlier other hother stopping List.mem_cons_self
    have := h.index_le other (by simp [hstops, hother])
    omega
  · rw [List.eq_nil_iff_forall_not_mem]
    intro other hother
    have := hlater other hother
    have := h.length_le other (by simp [hstops, hother])
    omega

/-- A loop cancels the next subscription; an earlier loop does not stand where it does. -/
theorem Settling.next {earlier later : List Stopping} {stopping : Stopping}
    {subscription : SourceSubscription} (h : s.Settling)
    (hstops : s.stops = earlier ++ stopping :: later)
    (hlength : s.subscriptions.length = stopping.length)
    (hbehind : ∀ other ∈ earlier, other.awaited ≠ stopping.awaited)
    (hnext : s.subscriptions[stopping.index]? = some subscription) :
    Settling { s with
      live := s.live.filter (· ≠ subscription)
      stops := earlier ++ ⟨stopping.length, stopping.index + 1, subscription⟩ :: later } := by
  have hmem : stopping ∈ s.stops := by simp [hstops]
  have hlive : ∀ other, other ∉ s.live → other ∉ s.live.filter (· ≠ subscription) :=
    fun _ hother hfiltered => hother (List.mem_of_mem_filter hfiltered)
  have hcases : ∀ other ∈ earlier ++ ⟨stopping.length, stopping.index + 1, subscription⟩ :: later,
      other ∈ s.stops ∨ other = ⟨stopping.length, stopping.index + 1, subscription⟩ := by
    intro other hother
    rw [hstops]
    grind
  have horder := h.order
  rw [hstops, List.pairwise_append, List.pairwise_cons] at horder
  obtain ⟨hfirst, ⟨hlater, hrest⟩, hearlier⟩ := horder
  refine { h with
    live_mem := fun other hother => h.live_mem other (List.mem_of_mem_filter hother)
    length_le := fun other hother => ?_
    index_le := fun other hother => ?_
    awaited := fun other hother => ?_
    passed := fun other hother => ?_
    order := ?_
    grown := fun hlisteners other hother => ?_
    ends := fun hlisteners => ?_ }
  · obtain hold | rfl := hcases other hother
    · exact h.length_le other hold
    · exact h.length_le stopping hmem
  · obtain hold | rfl := hcases other hother
    · exact h.index_le other hold
    · exact hlength ▸ (List.getElem?_eq_some_iff.mp hnext).1
  · obtain hold | rfl := hcases other hother
    · exact h.awaited other hold
    · exact ⟨Nat.succ_pos _, hnext⟩
  · obtain hold | rfl := hcases other hother
    · exact fun i hi other' hother' => hlive _ (h.passed other hold i hi other' hother')
    · intro i hi other' hother'
      obtain hi | rfl := Nat.lt_succ_iff_lt_or_eq.mp hi
      · exact hlive _ (h.passed stopping hmem i hi other' hother')
      · obtain rfl := Option.some.inj (hnext.symm.trans hother')
        simp
  · refine List.pairwise_append.mpr ⟨hfirst, List.pairwise_cons.mpr ⟨fun other hother => ?_, hrest⟩,
      fun other hother next hmem' => ?_⟩
    · have := hlater other hother
      dsimp only
      omega
    · obtain rfl | hmem' := List.mem_cons.mp hmem'
      · have hahead := hearlier other hother stopping List.mem_cons_self
        have hother' : other ∈ s.stops := by simp [hstops, hother]
        -- were it as far as the earlier one, both would await the same cancellation
        have hne : stopping.index ≠ other.index := by
          intro heq
          have hawaited := (h.awaited other hother').2
          rw [← heq, (h.awaited stopping hmem).2] at hawaited
          exact hbehind other hother (Option.some.inj hawaited).symm
        dsimp only
        omega
      · exact hearlier other hother next (List.mem_cons_of_mem _ hmem')
  · obtain hold | rfl := hcases other hother
    · exact h.grown hlisteners other hold
    · exact h.grown hlisteners stopping hmem
  · obtain hnone | ⟨other, hother, hlast⟩ := h.ends hlisteners
    · exact .inl (by rw [hnone]; rfl)
    · right
      rw [hstops] at hother
      obtain hold | hother := List.mem_append.mp hother
      · exact ⟨other, List.mem_append_left _ hold, hlast⟩
      · obtain rfl | hold := List.mem_cons.mp hother
        · exact ⟨_, List.mem_append_right _ List.mem_cons_self, hlast⟩
        · exact ⟨other, List.mem_append_right _ (List.mem_cons_of_mem _ hold), hlast⟩

theorem advance_of_ne {length index : Nat} (hlength : s.subscriptions.length ≠ length) :
    s.advance length index = (s, none) := if_pos hlength

theorem advance_of_none {length index : Nat} (hlength : s.subscriptions.length = length)
    (hend : s.subscriptions[index]? = none) :
    s.advance length index = ({ s with subscriptions := [] }, none) := by
  rw [advance, if_neg (not_not.mpr hlength), hend]

theorem advance_of_some {length index : Nat} {subscription : SourceSubscription}
    (hlength : s.subscriptions.length = length)
    (hnext : s.subscriptions[index]? = some subscription) :
    s.advance length index = ({ s with live := s.live.filter (· ≠ subscription) },
      some ⟨length, index + 1, subscription⟩) := by
  rw [advance, if_neg (not_not.mpr hlength), hnext]

theorem Settling.cancelled {i : Nat} (h : s.Settling) (hstep : s.cancelled i = some t) :
    t.Settling := by
  unfold AnnotationWatch.cancelled at hstep
  split at hstep
  · cases hstep
  · next stopping hi =>
    split_ifs at hstep with hbehind
    have hstops := split_of_getElem? hi
    by_cases hlength : s.subscriptions.length = stopping.length
    · cases hnext : s.subscriptions[stopping.index]? with
      | none =>
        rw [advance_of_none hlength hnext] at hstep
        obtain ⟨hlive, hearlier, hlater⟩ := h.reached hstops hlength hnext
        obtain rfl := Option.some.inj hstep
        rw [hearlier, hlater]
        refine ⟨nofun, ?_, nofun, nofun, nofun, nofun, .nil, nofun, fun _ => .inl hlive⟩
        rw [hlive]
        exact nofun
      | some subscription =>
        rw [advance_of_some hlength hnext] at hstep
        obtain rfl := Option.some.inj hstep
        simpa using h.next hstops hlength hbehind hnext
    · rw [advance_of_ne hlength] at hstep
      obtain rfl := Option.some.inj hstep
      simpa using h.failed hstops hlength

/-- The last listener cancels. -/
theorem Settling.stop (h : s.Settling) (hlisteners : 0 < s.listeners) :
    (AnnotationWatch.stop { s with listeners := 0 }).Settling := by
  have hgrown := h.grown hlisteners
  unfold AnnotationWatch.stop
  cases hfirst : s.subscriptions[0]? with
  | none =>
    have hempty : s.subscriptions = [] := by simpa using hfirst
    have hstops : s.stops = [] := by
      rw [List.eq_nil_iff_forall_not_mem]
      intro stopping hstopping
      have := hgrown stopping hstopping
      simp [hempty] at this
    have hlive : s.live = [] := by
      rw [List.eq_nil_iff_forall_not_mem]
      intro subscription hlive
      simpa [hempty] using h.live_mem subscription hlive
    have hadvance : ({ s with listeners := 0 } : AnnotationWatch).advance s.subscriptions.length 0 =
        _ := advance_of_none rfl hfirst
    dsimp only
    rw [hadvance]
    refine ⟨nofun, ?_, ?_, ?_, ?_, ?_, ?_, nofun, fun _ => .inl hlive⟩
    all_goals simp [hstops, hlive]
  | some subscription =>
    have hadvance : ({ s with listeners := 0 } : AnnotationWatch).advance s.subscriptions.length 0 =
        _ := advance_of_some rfl hfirst
    dsimp only
    rw [hadvance]
    have hcases : ∀ other ∈ s.stops ++ [⟨s.subscriptions.length, 1, subscription⟩],
        other ∈ s.stops ∨ other = ⟨s.subscriptions.length, 1, subscription⟩ :=
      fun other hother => (List.mem_append.mp hother).imp_right List.mem_singleton.mp
    refine ⟨h.ids, fun other hother => h.live_mem other (List.mem_of_mem_filter hother),
      fun other hother => ?_, fun other hother => ?_, fun other hother => ?_, fun other hother => ?_,
      ?_, nofun, fun _ => .inr ⟨_, List.mem_append_right _ List.mem_cons_self, rfl⟩⟩
    · obtain hold | rfl := hcases other hother
      · exact h.length_le other hold
      · exact le_rfl
    · obtain hold | rfl := hcases other hother
      · exact h.index_le other hold
      · exact (List.getElem?_eq_some_iff.mp hfirst).1
    · obtain hold | rfl := hcases other hother
      · exact h.awaited other hold
      · exact ⟨Nat.one_pos, hfirst⟩
    · obtain hold | rfl := hcases other hother
      · exact fun i hi other' hother' hlive =>
          h.passed other hold i hi other' hother' (List.mem_of_mem_filter hlive)
      · intro i hi other' hother'
        obtain rfl := Nat.lt_one_iff.mp hi
        obtain rfl := Option.some.inj (hfirst.symm.trans hother')
        simp
    · refine List.pairwise_append.mpr ⟨h.order, List.pairwise_singleton _ _,
        fun other hother next hnext => ?_⟩
      obtain rfl := List.mem_singleton.mp hnext
      exact ⟨hgrown other hother, (h.awaited other hother).1⟩

/-- The first listener comes. -/
theorem Settling.start (h : s.Settling) :
    (AnnotationWatch.start { s with listeners := s.listeners + 1 }).Settling := by
  have hinside : ∀ stopping ∈ s.stops, ∀ i < stopping.index, i < s.subscriptions.length := by
    intro stopping hstopping i hi
    have := h.index_le stopping hstopping
    have := h.length_le stopping hstopping
    omega
  refine ⟨fun other hother => ?_, fun other hother => ?_, fun other hother => ?_, h.index_le,
    fun other hother => ?_, fun other hother i hi added hadded => ?_, h.order,
    fun _ other hother => ?_, nofun⟩
  · obtain hold | hnew := List.mem_append.mp hother
    · have := h.ids other hold
      dsimp only [AnnotationWatch.start]
      omega
    · simp only [List.mem_cons, List.not_mem_nil, or_false] at hnew
      obtain rfl | rfl | rfl := hnew
      all_goals
        dsimp only [AnnotationWatch.start]
        omega
  · obtain hold | hnew := List.mem_append.mp hother
    · exact List.mem_append_left _ (h.live_mem other hold)
    · exact List.mem_append_right _ hnew
  · have := h.length_le other hother
    simp only [AnnotationWatch.start, List.length_append]
    omega
  · obtain ⟨hpos, hawaited⟩ := h.awaited other hother
    refine ⟨hpos, ?_⟩
    dsimp only [AnnotationWatch.start]
    rw [List.getElem?_append_left (hinside other hother _ (by omega)), hawaited]
  · dsimp only [AnnotationWatch.start] at hadded
    rw [List.getElem?_append_left (hinside other hother i hi)] at hadded
    have hid := h.ids added (List.mem_of_getElem? hadded)
    rintro hlive
    obtain hold | hnew := List.mem_append.mp hlive
    · exact h.passed other hother i hi added hadded hold
    · simp only [List.mem_cons, List.not_mem_nil, or_false] at hnew
      obtain rfl | rfl | rfl := hnew
      all_goals
        dsimp only at hid
        omega
  · have := h.length_le other hother
    simp only [AnnotationWatch.start, List.length_append, List.length_cons, List.length_nil]
    omega

/-- A snapshot leaves the subscriptions and the loops alone. -/
structure SameListens (s t : AnnotationWatch) : Prop where
  listeners : t.listeners = s.listeners
  listen : t.listen = s.listen
  opened : t.opened = s.opened
  subscriptions : t.subscriptions = s.subscriptions
  live : t.live = s.live
  stops : t.stops = s.stops

theorem sameListens_receive (s : AnnotationWatch) (snapshot : SourceSnapshot) :
    SameListens s (s.receive snapshot).1 := by
  cases snapshot
  all_goals
    simp only [receive]
    split <;> exact ⟨rfl, rfl, rfl, rfl, rfl, rfl⟩

theorem sameListens_emit (s : AnnotationWatch) (pieceId : String) :
    SameListens s (s.emit pieceId) := by
  unfold emit
  split
  · split_ifs <;> exact ⟨rfl, rfl, rfl, rfl, rfl, rfl⟩
  · exact ⟨rfl, rfl, rfl, rfl, rfl, rfl⟩

theorem SameListens.settling (h : SameListens s t) (hs : s.Settling) : t.Settling := by
  obtain ⟨hlisteners, -, hopened, hsubscriptions, hlive, hstops⟩ := h
  constructor
  all_goals simp only [hlisteners, hopened, hsubscriptions, hlive, hstops]
  exacts [hs.ids, hs.live_mem, hs.length_le, hs.index_le, hs.awaited, hs.passed, hs.order, hs.grown,
    hs.ends]

theorem Settling.onSnapshot (h : s.Settling) (snapshot : SourceSnapshot) :
    (s.onSnapshot pieceId snapshot).Settling := by
  have hreceive := (sameListens_receive s snapshot).settling h
  unfold AnnotationWatch.onSnapshot
  dsimp only
  split_ifs
  · exact (sameListens_emit _ pieceId).settling hreceive
  · exact hreceive

theorem settling_step {event : WatchEvent} (h : s.Settling) (hstep : s.step pieceId event = some t) :
    t.Settling := by
  cases event with
  | listen =>
    obtain rfl := Option.some.inj hstep
    split_ifs with hnone
    · exact h.start
    · exact { h with
        grown := fun _ => h.grown (Nat.pos_of_ne_zero hnone)
        ends := nofun }
  | cancel =>
    rw [step] at hstep
    split at hstep
    · cases hstep
    · next hone =>
      obtain rfl := Option.some.inj hstep
      exact h.stop (by omega)
    · next n hmore hlisteners =>
      obtain rfl := Option.some.inj hstep
      have hn : n ≠ 0 := fun hzero => hmore (by simp [hzero])
      exact { h with
        grown := fun _ => h.grown (by omega)
        ends := fun hzero => absurd hzero hn }
  | snapshot subscription snapshot =>
    rw [step] at hstep
    split_ifs at hstep
    obtain rfl := Option.some.inj hstep
    exact h.onSnapshot snapshot
  | cancelled i => exact h.cancelled hstep

/-! ## The values -/

/-- What a readable snapshot does to the values of the sources: its own is of the present listen, the
others stay. -/
theorem receive_readable {snapshot : SourceSnapshot} (h : (s.receive snapshot).2 = true) :
    (s.receive snapshot).1.emitted = s.emitted ∧
      (s.receive snapshot).1.Loaded snapshot.source ∧ (s.receive snapshot).1.Current snapshot.source ∧
      ∀ other, other ≠ snapshot.source →
        ((s.receive snapshot).1.Loaded other ↔ s.Loaded other) ∧
          ((s.receive snapshot).1.Current other ↔ s.Current other) := by
  cases snapshot
  all_goals
    simp only [receive] at h ⊢
    split at h
    · cases h
    · refine ⟨rfl, rfl, ⟨_, rfl, rfl⟩, fun other hother => ?_⟩
      cases other
      all_goals first
        | exact absurd rfl hother
        | exact ⟨.rfl, .rfl⟩

theorem emitted_receive (s : AnnotationWatch) (snapshot : SourceSnapshot) :
    (s.receive snapshot).1.emitted = s.emitted := by
  cases snapshot
  all_goals
    simp only [receive]
    split <;> rfl

/-- Something is emitted when somebody listens and there are values of every source. -/
theorem emit_cases (s : AnnotationWatch) (pieceId : String) :
    (0 < s.listeners ∧ (∀ source, s.Loaded source) ∧
        ∃ e, (s.emit pieceId).emitted = s.emitted ++ [e] ∧ (Fresh e ↔ ∀ source, s.Current source)) ∨
      (¬(0 < s.listeners ∧ ∀ source, s.Loaded source) ∧ (s.emit pieceId).emitted = s.emitted) := by
  unfold emit
  split
  · next layers notes hlayers hnotes =>
    split_ifs with hready
    · refine .inl ⟨hready.2, fun source => ?_, _, rfl, ?_⟩
      · cases source
        · exact Option.isSome_iff_exists.mpr ⟨_, hlayers⟩
        · exact Option.isSome_iff_exists.mpr ⟨_, hnotes⟩
        · exact hready.1
      · constructor
        · rintro ⟨hl, hn, hp⟩ source
          cases source
          · exact ⟨layers, hlayers, hl⟩
          · exact ⟨notes, hnotes, hn⟩
          · exact Option.map_eq_some_iff.mp hp
        · intro hcurrent
          obtain ⟨l, hl, hlistenl⟩ := hcurrent .layers
          obtain ⟨n, hn, hlistenn⟩ := hcurrent .notes
          obtain rfl := Option.some.inj (hlayers.symm.trans hl)
          obtain rfl := Option.some.inj (hnotes.symm.trans hn)
          exact ⟨hlistenl, hlistenn, Option.map_eq_some_iff.mpr (hcurrent .piece)⟩
    · exact .inr ⟨fun h => hready ⟨h.2 .piece, h.1⟩, rfl⟩
  · next hmissing =>
    refine .inr ⟨fun h => ?_, rfl⟩
    obtain ⟨layers, hlayers⟩ := Option.isSome_iff_exists.mp (h.2 .layers)
    obtain ⟨notes, hnotes⟩ := Option.isSome_iff_exists.mp (h.2 .notes)
    exact hmissing layers notes hlayers hnotes

/-- What has been emitted is fresh after a snapshot exactly when it arrives fresh. -/
theorem fresh_onSnapshot {subscription : SourceSubscription} {snapshot : SourceSnapshot}
    (h : ∀ e ∈ s.emitted, Fresh e) (hlive : subscription ∈ s.live)
    (hown : subscription.source = snapshot.source) :
    (∀ e ∈ (s.onSnapshot pieceId snapshot).emitted, Fresh e) ↔
      s.ArrivesFresh (.snapshot subscription snapshot) := by
  unfold AnnotationWatch.onSnapshot
  dsimp only
  cases hreadable : (s.receive snapshot).2 with
  | false =>
    rw [if_neg (by decide), emitted_receive]
    exact ⟨fun _ _ _ hread => by simp [hreadable] at hread, fun _ => h⟩
  | true =>
    rw [if_pos rfl]
    obtain ⟨hemitted, hloaded, hcurrent, hothers⟩ := receive_readable hreadable
    have hlisteners := (sameListens_receive s snapshot).listeners
    obtain ⟨hlistened, hall, e, he, hfresh⟩ | ⟨hnot, he⟩ := emit_cases (s.receive snapshot).1 pieceId
    · have hiff : (∀ e ∈ ((s.receive snapshot).1.emit pieceId).emitted, Fresh e) ↔ Fresh e := by
        rw [he, hemitted]
        refine ⟨fun h => h e (by simp), fun hnew other hother => ?_⟩
        obtain hold | hother := List.mem_append.mp hother
        · exact h other hold
        · obtain rfl := List.mem_singleton.mp hother
          exact hnew
      rw [hiff, hfresh]
      constructor
      · exact fun hcurrent' _ _ _ _ _ other hother => (hothers other hother).2.mp (hcurrent' other)
      · intro harrives source
        by_cases hsource : source = snapshot.source
        · rw [hsource]
          exact hcurrent
        · refine (hothers source hsource).2.mpr (harrives hlive hown hreadable
            (hlisteners ▸ hlistened) ?_ source hsource)
          exact fun other hother => (hothers other hother).1.mp (hall other)
    · rw [he, hemitted]
      refine ⟨fun _ _ _ _ hlistened hloaded' => absurd ⟨hlisteners.symm ▸ hlistened, fun source => ?_⟩ hnot,
        fun _ => h⟩
      by_cases hsource : source = snapshot.source
      · rw [hsource]
        exact hloaded
      · exact (hothers source hsource).1.mpr (hloaded' source hsource)

/-! ## Runs -/

theorem Settling.noneLeft (h : s.Settling) (hlisteners : s.listeners = 0) (hstops : s.stops = []) :
    s.live = [] := by
  obtain hnone | ⟨stopping, hmem, -⟩ := h.ends hlisteners
  · exact hnone
  · rw [hstops] at hmem
    cases hmem

theorem emitted_advance (s : AnnotationWatch) (length index : Nat) :
    (s.advance length index).1.emitted = s.emitted := by
  unfold advance
  split_ifs
  · rfl
  · split <;> rfl

/-- Only a snapshot emits something. -/
theorem emitted_step {event : WatchEvent} (hstep : s.step pieceId event = some t)
    (hevent : ∀ subscription snapshot, event ≠ .snapshot subscription snapshot) :
    t.emitted = s.emitted := by
  cases event with
  | listen =>
    obtain rfl := Option.some.inj hstep
    split_ifs <;> rfl
  | cancel =>
    rw [step] at hstep
    split at hstep
    · cases hstep
    · obtain rfl := Option.some.inj hstep
      exact emitted_advance _ _ _
    · obtain rfl := Option.some.inj hstep
      rfl
  | snapshot subscription snapshot => exact absurd rfl (hevent subscription snapshot)
  | cancelled i =>
    simp only [step, AnnotationWatch.cancelled] at hstep
    split at hstep
    · cases hstep
    · split_ifs at hstep
      obtain rfl := Option.some.inj hstep
      exact emitted_advance _ _ _

theorem emitsFresh_step_iff {event : WatchEvent} (hsettling : s.Settling) (h : s.EmitsFresh)
    (hstep : s.step pieceId event = some t) : t.EmitsFresh ↔ s.ArrivesFresh event := by
  have hnoneLeft := (settling_step hsettling hstep).noneLeft
  have hiff : t.EmitsFresh ↔ ∀ e ∈ t.emitted, Fresh e :=
    ⟨fun h => h.fresh, fun hfresh => ⟨hfresh, hnoneLeft⟩⟩
  rw [hiff]
  cases event with
  | snapshot subscription snapshot =>
    rw [step] at hstep
    split_ifs at hstep with henabled
    obtain rfl := Option.some.inj hstep
    exact fresh_onSnapshot h.fresh henabled.1 henabled.2
  | _ =>
    rw [emitted_step hstep nofun]
    exact ⟨fun _ => trivial, fun _ => h.fresh⟩

/-- What is emitted is from the present listen exactly when the snapshots arrive fresh; and no
subscription is left once the last listener has gone and the loops have ended. -/
theorem emitsFresh_iff (pieceId : String) (events : List WatchEvent) :
    Always (step pieceId) EmitsFresh initial events ↔
      EachStep (step pieceId) ArrivesFresh initial events := by
  refine always_iff_eachStep (fun _ _ _ h _ hstep => settling_step h hstep)
    (fun _ _ _ hsettling h hstep => emitsFresh_step_iff hsettling h hstep) (fun s event hnone => ?_)
    settling_initial ⟨nofun, fun _ _ => rfl⟩
  cases event with
  | snapshot subscription snapshot =>
    intro hlive hsource
    rw [step, if_pos ⟨hlive, hsource⟩] at hnone
    cases hnone
  | _ => trivial

/-- The stream is listened to again, and its layers arrive first. -/
def listensAgain : List WatchEvent :=
  [.listen, .snapshot ⟨0, .layers⟩ (.layers []), .snapshot ⟨1, .notes⟩ (.notes []),
    .snapshot ⟨2, .piece⟩ (.piece none), .cancel, .cancelled 0, .cancelled 0, .cancelled 0, .listen,
    .snapshot ⟨3, .layers⟩ (.layers [])]

/-- Notes and a piece of the first listen are emitted in the second. -/
theorem not_emitsFresh : ∃ t, run (step "etude") initial listensAgain = some t ∧
    ¬t.EmitsFresh := by
  have hrun : (run (step "etude") initial listensAgain).map
      (fun t => decide (∀ e ∈ t.emitted, Fresh e)) = some false := by decide +kernel
  obtain ⟨t, ht, hmixed⟩ := Option.map_eq_some_iff.mp hrun
  exact ⟨t, ht, fun h => of_decide_eq_false hmixed h.fresh⟩

end AnnotationWatch

end Duet
