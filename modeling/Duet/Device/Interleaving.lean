import Duet.Device.AnnotationCalls
import Duet.Lib.Transition

/-!
# Calls that overlap

The calls on one piece's annotations as one isolate runs them: a call runs on its own up to an
`await`, and other calls may run before it goes on. `_emit` updates the cache and the preferences
before it awaits, so there is one `await` between a read and a write: a first stroke of an author
waits for `_roleFor` with the annotations it has read.

## Main results

* `written_establishes`, `written_keeps` — what one write brings, and what it leaves alone.
* `run_alone` — a call that nothing overtakes does what the repository's operation does.
* `updates_kept` — while no first stroke is overtaken by another write, every successful call's
  effect stays until a later call removes it.
-/

namespace Duet

open Lib

/-! ## What a call is for -/

/-- Something that holds of a piece's annotations on account of a call. -/
inductive UpdateEffect where
  | stroke (ownerId : String) (stroke : InkStroke)
  | strokeGone (ownerId strokeId : String)
  | note (note : AudioNote)
  | tombstoned (noteId : String)
  | noteGone (authorId noteId : String)
  deriving DecidableEq, Repr

/-- The effect is there. -/
def UpdateEffect.In (a : PieceAnnotations) : UpdateEffect → Prop
  | .stroke ownerId added => ∃ l ∈ a.layers, l.ownerId = ownerId ∧ added ∈ l.strokes
  | .strokeGone ownerId strokeId =>
    ∀ l ∈ a.layers, l.ownerId = ownerId → ∀ s ∈ l.strokes, s.id ≠ strokeId
  | .note added => added ∈ a.audioNotes
  | .tombstoned noteId => ∀ n ∈ a.audioNotes, n.id = noteId → n.isTombstoned = true
  | .noteGone authorId noteId => ∀ n ∈ a.audioNotes, n.authorId = authorId → n.id ≠ noteId

namespace AnnotationCall

/-- The effects of a call that has read `current`. -/
def Establishes (current : PieceAnnotations) : AnnotationCall → UpdateEffect → Prop
  | .addStroke stroke, .stroke ownerId added => ownerId = stroke.authorId ∧ added = stroke
  | .eraseStroke strokeId, .strokeGone ownerId erased =>
    erased = strokeId ∧ (current.layerHolding strokeId).map (·.ownerId) = some ownerId
  | .addAudioNote note, .note added => added = note
  | .deleteAudioNote noteId, .tombstoned deleted => deleted = noteId
  | .replaceAuthorSlice authorId _ strokes _, .stroke ownerId stroke =>
    ownerId = authorId ∧ stroke ∈ strokes
  | .replaceAuthorSlice authorId _ strokes _, .strokeGone ownerId strokeId =>
    ownerId = authorId ∧ ∀ s ∈ strokes, s.id ≠ strokeId
  | .replaceAuthorSlice _ _ _ notes, .note note => note ∈ notes
  | .replaceAuthorSlice authorId _ _ notes, .noteGone author noteId =>
    author = authorId ∧ ∀ n ∈ notes, n.id ≠ noteId
  | .removeAuthorSlice authorId, .strokeGone ownerId _ => ownerId = authorId
  | .removeAuthorSlice authorId, .noteGone author _ => author = authorId
  | .clearPiece, .strokeGone _ _ => True
  | .clearPiece, .noteGone _ _ => True
  | _, _ => False

/-- The call takes the effect of an earlier call back. -/
def Removes : AnnotationCall → UpdateEffect → Prop
  | .addStroke stroke, .strokeGone ownerId strokeId =>
    stroke.authorId = ownerId ∧ stroke.id = strokeId
  | .eraseStroke strokeId, .stroke _ stroke => stroke.id = strokeId
  | .addAudioNote note, .tombstoned noteId => note.id = noteId
  | .addAudioNote note, .noteGone authorId noteId => note.authorId = authorId ∧ note.id = noteId
  | .deleteAudioNote noteId, .note note => note.id = noteId
  | .replaceAuthorSlice authorId _ _ _, .stroke ownerId _ => ownerId = authorId
  | .replaceAuthorSlice authorId _ strokes _, .strokeGone ownerId strokeId =>
    ownerId = authorId ∧ ∃ s ∈ strokes, s.id = strokeId
  | .replaceAuthorSlice authorId _ _ _, .note note => note.authorId = authorId
  | .replaceAuthorSlice _ _ _ notes, .tombstoned noteId => ∃ n ∈ notes, n.id = noteId
  | .replaceAuthorSlice _ _ _ notes, .noteGone authorId noteId =>
    ∃ n ∈ notes, n.authorId = authorId ∧ n.id = noteId
  | .removeAuthorSlice authorId, .stroke ownerId _ => ownerId = authorId
  | .removeAuthorSlice authorId, .note note => note.authorId = authorId
  | .clearPiece, .stroke _ _ => True
  | .clearPiece, .note _ => True
  | _, _ => False

end AnnotationCall

variable {pieceId user : String} {now : DateTime} {role : PieceRole}
  {current a : PieceAnnotations} {call : AnnotationCall} {effect : UpdateEffect}

/-- What a call is for holds in the annotations it writes. -/
theorem AnnotationCall.written_establishes
    (h : call.written pieceId user now role current = .ok a)
    (he : call.Establishes current effect) : effect.In a := by
  have hok := written_ok h
  clear h
  cases call with
  | addStroke stroke =>
    obtain rfl : a = _ := hok
    cases effect <;> simp only [Establishes] at he
    case stroke ownerId added =>
      obtain ⟨rfl, rfl⟩ := he
      exact ⟨current.layerAdding role added, by simp, PieceAnnotations.ownerId_layerAdding _,
        PieceAnnotations.mem_strokes_layerAdding.mpr (.inl rfl)⟩
  | eraseStroke strokeId =>
    obtain ⟨layer, hlayer, rfl⟩ := hok
    cases effect <;> simp only [Establishes] at he
    obtain ⟨rfl, howner⟩ := he
    rw [hlayer, Option.map_some, Option.some.injEq] at howner
    intro l hl hsame s hs
    obtain ⟨m, -, rfl⟩ := List.mem_map.mp hl
    grind
  | addAudioNote note =>
    obtain rfl : a = _ := hok
    cases effect <;> simp only [Establishes] at he
    simp [UpdateEffect.In, he]
  | deleteAudioNote noteId =>
    obtain rfl : a = _ := hok
    cases effect <;> simp only [Establishes] at he
    intro n hn hid
    obtain ⟨m, -, rfl⟩ := List.mem_map.mp hn
    grind [AudioNote.tombstone, AudioNote.isTombstoned]
  | replaceAuthorSlice authorId role strokes audioNotes =>
    obtain rfl : a = _ := hok
    cases effect <;> simp only [Establishes] at he
    case stroke ownerId added =>
      exact ⟨⟨authorId, role, strokes, none⟩, by simp [PieceAnnotations.replaceSlice], he.1.symm,
        he.2⟩
    all_goals
      simp only [UpdateEffect.In, PieceAnnotations.replaceSlice, List.mem_append, List.mem_filter,
        List.mem_singleton]
      grind
  | removeAuthorSlice authorId =>
    obtain rfl : a = _ := hok
    cases effect <;> simp only [Establishes] at he <;> grind [UpdateEffect.In]
  | clearPiece =>
    obtain rfl : a = _ := hok
    cases effect <;> simp only [Establishes] at he <;>
      simp [UpdateEffect.In, PieceAnnotations.empty]

/-- What a call does not take back stays. -/
theorem AnnotationCall.written_keeps (honce : current.OneLayerEach)
    (h : call.written pieceId user now role current = .ok a) (he : effect.In current)
    (hnot : ¬call.Removes effect) : effect.In a := by
  have hok := written_ok h
  clear h
  cases call with
  | addStroke stroke =>
    obtain rfl : a = _ := hok
    cases effect with
    | stroke ownerId added =>
      obtain ⟨l, hl, rfl, hadded⟩ := he
      by_cases hauthor : l.ownerId = stroke.authorId
      · refine ⟨current.layerAdding role stroke, by simp,
          (PieceAnnotations.ownerId_layerAdding _).trans hauthor.symm, ?_⟩
        rw [PieceAnnotations.mem_strokes_layerAdding, ← hauthor]
        exact .inr ⟨l, honce.find?_eq hl, hadded⟩
      · exact ⟨l, by simp [hl, hauthor], rfl, hadded⟩
    | strokeGone ownerId strokeId =>
      intro l hl howner s hs
      obtain hl | hl := List.mem_append.mp hl
      · exact he l (List.mem_filter.mp hl).1 howner s hs
      · rw [List.mem_singleton] at hl
        subst hl
        rw [PieceAnnotations.ownerId_layerAdding] at howner
        rw [PieceAnnotations.mem_strokes_layerAdding] at hs
        obtain rfl | ⟨m, hm, hs⟩ := hs
        · exact fun hid => hnot ⟨howner, hid⟩
        · have hsame := List.find?_some hm
          exact he m (List.mem_of_find?_eq_some hm) ((beq_iff_eq.mp hsame).trans howner) s hs
    | note | tombstoned | noteGone => exact he
  | eraseStroke strokeId =>
    obtain ⟨layer, hlayer, rfl⟩ := hok
    have hmem := PieceAnnotations.mem_of_layerHolding hlayer
    cases effect with
    | stroke ownerId added =>
      obtain ⟨l, hl, rfl, hadded⟩ := he
      refine ⟨_, List.mem_map_of_mem hl, ?_, ?_⟩
      · split_ifs <;> rfl
      · split_ifs with howner
        · obtain rfl := honce.eq hl hmem howner
          have hid : added.id ≠ strokeId := hnot
          simp [hadded, hid]
        · exact hadded
    | strokeGone ownerId erased =>
      intro l hl howner s hs
      obtain ⟨m, hm, rfl⟩ := List.mem_map.mp hl
      have hgone := he m hm
      have hgone' := he layer hmem
      grind
    | note | tombstoned | noteGone => exact he
  | addAudioNote note =>
    obtain rfl : a = _ := hok
    cases effect <;> simp only [Removes] at hnot <;> grind [UpdateEffect.In]
  | deleteAudioNote noteId =>
    obtain rfl : a = _ := hok
    cases effect with
    | stroke | strokeGone => exact he
    | note added =>
      have hid : added.id ≠ noteId := hnot
      exact List.mem_map.mpr ⟨added, he, if_neg hid⟩
    | tombstoned | noteGone =>
      intro n hn
      obtain ⟨m, hm, rfl⟩ := List.mem_map.mp hn
      have hold := he m hm
      grind [AudioNote.tombstone, AudioNote.isTombstoned]
  | replaceAuthorSlice authorId role strokes audioNotes =>
    obtain rfl : a = _ := hok
    cases effect <;> simp only [Removes] at hnot
    case stroke ownerId added =>
      obtain ⟨l, hl, rfl, hadded⟩ := he
      exact ⟨l, by simp [PieceAnnotations.replaceSlice, hl, hnot], rfl, hadded⟩
    all_goals
      simp only [UpdateEffect.In, PieceAnnotations.replaceSlice, List.mem_append, List.mem_filter,
        List.mem_singleton] at he ⊢
      grind
  | removeAuthorSlice authorId =>
    obtain rfl : a = _ := hok
    cases effect <;> simp only [Removes] at hnot <;> grind [UpdateEffect.In]
  | clearPiece =>
    obtain rfl : a = _ := hok
    cases effect <;> simp only [Removes] at hnot <;>
      simp_all [UpdateEffect.In, PieceAnnotations.empty]

/-! ## One isolate -/

/-- Where a call stands that has not returned. -/
inductive Phase where
  /-- A first stroke waits for `_roleFor`, with the annotations it has read. -/
  | resolvingRole (current : PieceAnnotations)
  /-- The write is done, in memory; `setString` is awaited. -/
  | storing
  deriving DecidableEq, Repr

/-- A call on the piece: the user signed in and the clock when it was made, and where it stands. -/
structure PendingCall where
  user : String
  now : DateTime
  call : AnnotationCall
  phase : Phase
  deriving DecidableEq, Repr

/-- A write that was made, with what it was computed from. -/
structure AppliedCall where
  id : Nat
  call : AnnotationCall
  current : PieceAnnotations
  deriving DecidableEq, Repr

/-- The isolate: the device, the calls under way, and, for the record, the writes in their order
and what the calls have returned. -/
structure Isolate where
  device : Device
  pending : Assoc Nat PendingCall
  nextId : Nat
  applied : List AppliedCall
  returned : List (Nat × Except Failure Unit)

inductive IsolateEvent where
  /-- A call is made. -/
  | call (user : String) (now : DateTime) (call : AnnotationCall)
  /-- `_roleFor` of a first stroke gives `role`. -/
  | roleResolved (id : Nat) (role : PieceRole)
  /-- `setString` of a write completes, with an error or without one. -/
  | stored (id : Nat) (error : Option Failure)
  deriving DecidableEq, Repr

/-- A first stroke: its author has no layer yet. -/
def AnnotationCall.awaitsRole (user : String) (current : PieceAnnotations) :
    AnnotationCall → Bool
  | .addStroke stroke => stroke.authorId == user &&
      (current.layers.find? fun l => l.ownerId == stroke.authorId).isNone
  | _ => false

/-- A device that has stored nothing for the piece. -/
def Device.HasNothingOn (d : Device) (pieceId : String) : Prop :=
  d.annotationCache.get pieceId = none ∧ d.storage.annotations.get pieceId = none

namespace Isolate

def start (d : Device) : Isolate := ⟨d, [], 0, [], []⟩

/-- The call writes: the cache and the preferences change at once, and the call goes on to wait. -/
def write (s : Isolate) (pieceId : String) (id : Nat) (waiting : PendingCall)
    (current a : PieceAnnotations) : Isolate :=
  { s with
    device := s.device.put pieceId a waiting.call
    pending := s.pending.set id { waiting with phase := .storing }
    applied := s.applied ++ [⟨id, waiting.call, current⟩] }

/-- A call runs up to its first `await`, or to its end when a guard fails. -/
def begin (s : Isolate) (pieceId user : String) (now : DateTime) (call : AnnotationCall) :
    Isolate :=
  let current := s.device.annotationsFor pieceId
  let waiting : PendingCall := ⟨user, now, call, .resolvingRole current⟩
  let next := { s with nextId := s.nextId + 1 }
  if call.awaitsRole user current then
    { next with pending := s.pending.set s.nextId waiting }
  else match call.written pieceId user now .collaborator current with
    | .error e => { next with returned := s.returned ++ [(s.nextId, .error e)] }
    | .ok a => next.write pieceId s.nextId waiting current a

/-- `_roleFor` has given the role of a first stroke's author: the call writes. -/
def resume (s : Isolate) (pieceId : String) (id : Nat) (role : PieceRole) : Option Isolate := do
  let waiting ← s.pending.get id
  match waiting.phase with
  | .resolvingRole current =>
    match waiting.call.written pieceId waiting.user waiting.now role current with
    | .ok a => some (s.write pieceId id waiting current a)
    | .error _ => none
  | .storing => none

/-- `setString` has completed: the call returns. -/
def finish (s : Isolate) (id : Nat) (error : Option Failure) : Option Isolate := do
  let waiting ← s.pending.get id
  match waiting.phase with
  | .resolvingRole _ => none
  | .storing => some { s with
      pending := s.pending.erase id
      returned := s.returned ++ [(id, error.elim (.ok ()) .error)] }

/-- One event of the isolate; `none` when no call waits for it. -/
def step (pieceId : String) (s : Isolate) : IsolateEvent → Option Isolate
  | .call user now call => some (s.begin pieceId user now call)
  | .roleResolved id role => s.resume pieceId id role
  | .stored id error => s.finish id error

/-- The role matters for a first stroke only. -/
theorem written_of_not_awaitsRole {call : AnnotationCall} {pieceId user : String} {now : DateTime}
    {current : PieceAnnotations} (h : call.awaitsRole user current = false)
    (role role' : PieceRole) : call.written pieceId user now role current =
      call.written pieceId user now role' current := by
  cases call
  case addStroke stroke =>
    simp only [AnnotationCall.written]
    by_cases hauthor : stroke.authorId = user
    · rw [AnnotationCall.awaitsRole, beq_iff_eq.mpr hauthor, Bool.true_and] at h
      cases hfind : current.layers.find? fun l => l.ownerId == stroke.authorId with
      | none => simp [hfind] at h
      | some layer => simp [PieceAnnotations.layerAdding, hfind]
    · simp [hauthor]
  all_goals rfl

/-- A call that nothing overtakes does what the repository's operation does. -/
theorem run_alone {env : Env} {pieceId : String} {call : AnnotationCall} {d d' : Device}
    (hstored : env.fails .persistAnnotations = false)
    (hok : (call.perform env pieceId).exec d = (.ok (), d')) :
    ∃ s, run (step pieceId) (start d)
        (.call env.currentUserId (env.clock .persistAnnotations) call ::
          (if call.awaitsRole env.currentUserId (d.annotationsFor pieceId) then
            [.roleResolved 0 (d.roleFor pieceId env.currentUserId)] else []) ++
          [.stored 0 none]) = some s ∧
      s.device = d' ∧ s.returned = [(0, .ok ())] := by
  have hexec := exec_perform env pieceId call d hstored
  cases hwritten : call.written pieceId env.currentUserId (env.clock .persistAnnotations)
    (d.roleFor pieceId env.currentUserId) (d.annotationsFor pieceId) with
  | error e =>
    simp only [hwritten] at hexec
    obtain ⟨d'', hfails, -⟩ := hexec
    simp [hok] at hfails
  | ok a =>
    simp only [hwritten] at hexec
    obtain rfl := (Prod.mk.inj (hok.symm.trans hexec)).2
    cases hrole : call.awaitsRole env.currentUserId (d.annotationsFor pieceId) with
    | true => simp [run, step, begin, resume, finish, write, start, hrole, hwritten]
    | false =>
      rw [written_of_not_awaitsRole hrole _ .collaborator] at hwritten
      simp [run, step, begin, finish, write, start, hrole, hwritten]

/-- A first stroke goes on with the annotations it has read: nothing was written meanwhile. -/
def NotOvertaken (pieceId : String) (s : Isolate) : IsolateEvent → Prop
  | .roleResolved id _ => ∀ waiting current, s.pending.get id = some waiting →
      waiting.phase = .resolvingRole current → s.device.annotationsFor pieceId = current
  | _ => True

/-- The effect of every call that returned a success is stored, unless a later call removed it. -/
structure NoLostUpdate (pieceId : String) (s : Isolate) : Prop where
  applied : ∀ id, (id, .ok ()) ∈ s.returned → ∃ entry ∈ s.applied, entry.id = id
  kept : ∀ before entry after, s.applied = before ++ entry :: after →
    (entry.id, .ok ()) ∈ s.returned → ∀ effect, entry.call.Establishes entry.current effect →
      (∀ later ∈ after, ¬later.call.Removes effect) →
        effect.In (s.device.storedAnnotations pieceId)

/-- What every step keeps while no first stroke is overtaken. -/
structure Kept (pieceId : String) (s : Isolate) : Prop where
  oneLayerEach : (s.device.annotationsFor pieceId).OneLayerEach
  inStore : ∀ effect, UpdateEffect.In (s.device.annotationsFor pieceId) effect →
    effect.In (s.device.storedAnnotations pieceId)
  storing : ∀ id waiting, s.pending.get id = some waiting → waiting.phase = .storing →
    ∃ entry ∈ s.applied, entry.id = id
  returned : ∀ id, (id, .ok ()) ∈ s.returned → ∃ entry ∈ s.applied, entry.id = id
  effects : ∀ before entry after, s.applied = before ++ entry :: after →
    ∀ effect, entry.call.Establishes entry.current effect →
      (∀ later ∈ after, ¬later.call.Removes effect) →
        effect.In (s.device.annotationsFor pieceId)

variable {s t : Isolate} {pieceId : String}

theorem Kept.noLostUpdate (h : s.Kept pieceId) : s.NoLostUpdate pieceId where
  applied := h.returned
  kept before entry after hsplit _ effect he hlater :=
    h.inStore effect (h.effects before entry after hsplit effect he hlater)

/-- The preferences get what the cache gets. -/
theorem In_stored {a : PieceAnnotations} {effect : UpdateEffect} :
    effect.In a.stored ↔ effect.In a := by
  cases effect <;> simp [UpdateEffect.In, PieceAnnotations.stored]

theorem storedAnnotations_put (d : Device) {a : PieceAnnotations} (call : AnnotationCall)
    {effect : UpdateEffect} (hclear : call = .clearPiece → a = .empty pieceId)
    (h : effect.In a) : effect.In ((d.put pieceId a call).storedAnnotations pieceId) := by
  cases call
  case clearPiece =>
    obtain rfl := hclear rfl
    simpa [Device.put, Device.storedAnnotations, Device.cacheAnnotations] using h
  all_goals
    simpa [Device.put, Device.storedAnnotations, Device.storeAnnotations, In_stored] using h

/-- A write computed from the annotations as they are. -/
theorem Kept.write (h : s.Kept pieceId) {id : Nat} {waiting : PendingCall} {role : PieceRole}
    {a : PieceAnnotations} (hwritten : waiting.call.written pieceId waiting.user waiting.now role
      (s.device.annotationsFor pieceId) = .ok a) :
    (s.write pieceId id waiting (s.device.annotationsFor pieceId) a).Kept pieceId := by
  have hput : (s.write pieceId id waiting (s.device.annotationsFor pieceId) a).device.annotationsFor
      pieceId = a := Device.annotationsFor_put pieceId a waiting.call
  constructor
  case oneLayerEach =>
    rw [hput]
    exact AnnotationCall.written_oneLayerEach h.oneLayerEach hwritten
  case inStore =>
    intro effect he
    rw [hput] at he
    refine storedAnnotations_put s.device waiting.call ?_ he
    intro hclear
    rw [hclear] at hwritten
    exact (Except.ok.inj hwritten).symm
  case storing =>
    intro id' other hget hphase
    by_cases hid : id' = id
    · exact ⟨_, List.mem_append_right _ (List.mem_singleton_self _), hid.symm⟩
    · rw [Isolate.write, Assoc.get_set_of_ne _ hid] at hget
      obtain ⟨entry, hentry, heq⟩ := h.storing id' other hget hphase
      exact ⟨entry, List.mem_append_left _ hentry, heq⟩
  case returned =>
    intro id' hok
    obtain ⟨entry, hentry, heq⟩ := h.returned id' hok
    exact ⟨entry, List.mem_append_left _ hentry, heq⟩
  case effects =>
    intro before entry after hsplit effect he hlater
    rw [hput]
    -- the entry is the new one, or an older one that the new one leaves alone
    obtain ⟨rfl, rfl⟩ | ⟨rest, rfl, hold⟩ := append_singleton_eq_split hsplit
    · exact AnnotationCall.written_establishes hwritten he
    · have hbefore := h.effects before entry rest hold effect he fun later hmem =>
        hlater later (List.mem_append_left _ hmem)
      exact AnnotationCall.written_keeps h.oneLayerEach hwritten hbefore
        (hlater _ (List.mem_append_right _ (List.mem_singleton_self _)))

/-- One event, the first strokes going on with the annotations they have read. -/
theorem Kept.step {event : IsolateEvent} (h : s.Kept pieceId) (hcond : s.NotOvertaken pieceId event)
    (hstep : s.step pieceId event = some t) : t.Kept pieceId := by
  cases event with
  | call user now call =>
    obtain rfl := Option.some.inj hstep
    simp only [begin]
    split_ifs with hrole
    · refine ⟨h.oneLayerEach, h.inStore, ?_, h.returned, h.effects⟩
      intro id waiting hget hphase
      by_cases hid : id = s.nextId
      · rw [hid, Assoc.get_set_self, Option.some.injEq] at hget
        simp [← hget] at hphase
      · rw [Assoc.get_set_of_ne _ hid] at hget
        exact h.storing id waiting hget hphase
    · cases hwritten : call.written pieceId user now .collaborator
        (s.device.annotationsFor pieceId) with
      | error e =>
        refine ⟨h.oneLayerEach, h.inStore, h.storing, ?_, h.effects⟩
        intro id hok
        exact h.returned id (by simpa using hok)
      | ok a =>
        exact Kept.write (s := { s with nextId := s.nextId + 1 })
          ⟨h.oneLayerEach, h.inStore, h.storing, h.returned, h.effects⟩ hwritten
  | roleResolved id role =>
    simp only [Isolate.step, resume, Option.bind_eq_bind, Option.bind_eq_some_iff] at hstep
    obtain ⟨waiting, hget, hstep⟩ := hstep
    cases hphase : waiting.phase with
    | storing => simp [hphase] at hstep
    | resolvingRole current =>
      obtain rfl := hcond waiting current hget hphase
      rw [hphase] at hstep
      cases hwritten : waiting.call.written pieceId waiting.user waiting.now role
        (s.device.annotationsFor pieceId) with
      | error e => simp [hwritten] at hstep
      | ok a =>
        simp only [hwritten, Option.some.injEq] at hstep
        rw [← hstep]
        exact h.write hwritten
  | stored id error =>
    simp only [Isolate.step, finish, Option.bind_eq_bind, Option.bind_eq_some_iff] at hstep
    obtain ⟨waiting, hget, hstep⟩ := hstep
    cases hphase : waiting.phase with
    | resolvingRole current => simp [hphase] at hstep
    | storing =>
      simp only [hphase, Option.some.injEq] at hstep
      rw [← hstep]
      refine ⟨h.oneLayerEach, h.inStore, ?_, ?_, h.effects⟩
      · intro id' other hget' hphase'
        rw [Assoc.get_erase] at hget'
        split_ifs at hget'
        exact h.storing id' other hget' hphase'
      · intro id' hok
        obtain hold | hnew := List.mem_append.mp hok
        · exact h.returned id' hold
        · rw [(Prod.mk.inj (List.mem_singleton.mp hnew)).1]
          exact h.storing id waiting hget hphase

theorem Kept.start {d : Device} (h : d.HasNothingOn pieceId) : (start d).Kept pieceId := by
  have hempty : d.annotationsFor pieceId = .empty pieceId := by
    simp [Device.annotationsFor, h.1, h.2]
  have hstored : d.storedAnnotations pieceId = .empty pieceId := by
    simp [Device.storedAnnotations, h.2]
  refine ⟨?_, ?_, by simp [Isolate.start], by simp [Isolate.start], by simp [Isolate.start]⟩
  · rw [Isolate.start, hempty]
    exact List.nodup_nil
  · intro effect he
    rw [Isolate.start, hempty] at he
    rwa [Isolate.start, hstored]

/-- However calls on a piece overlap, no successful call's effect is lost while no first stroke is
overtaken by another write. -/
theorem updates_kept {d : Device} {pieceId : String} {events : List IsolateEvent} {s : Isolate}
    (hnew : d.HasNothingOn pieceId)
    (hcond : EachStep (step pieceId) (NotOvertaken pieceId) (start d) events)
    (hrun : run (step pieceId) (start d) events = some s) : s.NoLostUpdate pieceId :=
  (run_invariant (fun _ _ _ h hc ht => Kept.step h hc ht) (Kept.start hnew) hcond
    hrun).noLostUpdate

/-! ### Two strokes in a row -/

def firstStroke : InkStroke := ⟨"s1", "ann", 0, "p0", []⟩

def secondStroke : InkStroke := ⟨"s2", "ann", 0, "p0", []⟩

/-- `ann` draws a first stroke, and a second one before or after the role has been resolved. -/
def drawsInTurn : List IsolateEvent :=
  [.call "ann" noon (.addStroke firstStroke), .roleResolved 0 .owner, .stored 0 none,
    .call "ann" noon (.addStroke secondStroke), .stored 1 none]

def drawsAtOnce : List IsolateEvent :=
  [.call "ann" noon (.addStroke firstStroke), .call "ann" noon (.addStroke secondStroke),
    .roleResolved 0 .owner, .stored 0 none, .roleResolved 1 .owner, .stored 1 none]

theorem updates_kept_inTurn : ∃ s, run (step "p") (start .fresh) drawsInTurn = some s ∧
    s.NoLostUpdate "p" := by
  have hruns : (run (step "p") (start .fresh) drawsInTurn).isSome = true := by decide +kernel
  obtain ⟨s, hrun⟩ := Option.isSome_iff_exists.mp hruns
  have hcond : EachStep (step "p") (NotOvertaken "p") (start .fresh) drawsInTurn := by
    refine ⟨trivial, fun s₁ h₁ => ⟨?_, fun _ _ => ⟨trivial, fun _ _ => ⟨trivial, fun _ _ =>
      ⟨trivial, fun _ _ => trivial⟩⟩⟩⟩⟩
    obtain rfl := Option.some.inj h₁
    intro waiting current hget hphase
    obtain rfl := Option.some.inj hget
    exact Phase.resolvingRole.inj hphase
  exact ⟨s, hrun, updates_kept ⟨rfl, rfl⟩ hcond hrun⟩

/-- The second call has read the annotations before the first one wrote: the first stroke is
gone, though both calls return a success. -/
theorem first_stroke_lost : ∃ s, run (step "p") (start .fresh) drawsAtOnce = some s ∧
    s.returned = [(0, .ok ()), (1, .ok ())] ∧ ¬s.NoLostUpdate "p" := by
  have hruns : (run (step "p") (start .fresh) drawsAtOnce).any (fun s =>
      s.returned = [(0, .ok ()), (1, .ok ())] ∧
      s.applied.map (fun entry => (entry.id, entry.call)) =
        [(0, .addStroke firstStroke), (1, .addStroke secondStroke)] ∧
      (s.device.storedAnnotations "p").layers.map (·.strokes) = [[secondStroke]]) = true := by
    decide +kernel
  obtain ⟨s, hrun, hs⟩ := (Option.any_eq_true _ _).mp hruns
  obtain ⟨hreturned, happlied, hstored⟩ := of_decide_eq_true hs
  refine ⟨s, hrun, hreturned, fun h => ?_⟩
  obtain ⟨first, rest, hsplit, hfirst, hrest⟩ := List.map_eq_cons_iff.mp happlied
  obtain ⟨second, tail, rfl, hsecond, htail⟩ := List.map_eq_cons_iff.mp hrest
  obtain rfl := List.map_eq_nil_iff.mp htail
  obtain ⟨hid, hcall⟩ := Prod.mk.inj hfirst
  have hstroke : (UpdateEffect.stroke "ann" firstStroke).In (s.device.storedAnnotations "p") := by
    refine h.kept [] first [second] hsplit (by simp [hreturned, hid]) _ ?_ ?_
    · rw [hcall]
      exact ⟨rfl, rfl⟩
    · intro later hlater
      rw [List.mem_singleton.mp hlater, (Prod.mk.inj hsecond).2]
      exact id
  obtain ⟨l, hl, -, hmem⟩ := hstroke
  have hstrokes : l.strokes ∈ [[secondStroke]] := by
    rw [← hstored]
    exact List.mem_map_of_mem hl
  rw [List.mem_singleton.mp hstrokes] at hmem
  simp [firstStroke, secondStroke] at hmem

end Isolate

end Duet
