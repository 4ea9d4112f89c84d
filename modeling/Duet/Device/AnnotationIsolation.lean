import Duet.Device.AnnotationCalls
import Duet.Device.AnnotationRecords
import Duet.Lib.Transition

/-!
# Whose annotations a user can change

One user edits the pieces of a device, one call at a time, and every write reaches the preferences.
The guards look at the authors of strokes and notes, the layers are found by their owners: the two
agree while every stroke stands in its author's layer and all ids differ.

## Main results

* `wellFormed_of_writes` — what a call writes is well formed.
* `sound_step` — the step lemma: an edit keeps the device sound.
* `isolates` — what holds of every state that a run of edits visits.
-/

namespace Duet

open Lib Effect

namespace PieceAnnotations

/-- The ids of the strokes and of the notes. -/
def ids (a : PieceAnnotations) : List String :=
  (a.layers.flatMap fun layer => layer.strokes.map (·.id)) ++ a.audioNotes.map (·.id)

/-- One layer for each author, with strokes of that author only, and no id twice. -/
structure WellFormed (a : PieceAnnotations) : Prop where
  oneLayerEach : a.OneLayerEach
  strokesOwned : a.StrokesOwned
  idsDistinct : a.ids.Nodup

/-- The notes with the id are deleted ones, and there is one. -/
def Tombstoned (a : PieceAnnotations) (noteId : String) : Prop :=
  (∃ note ∈ a.audioNotes, note.id = noteId) ∧
    ∀ note ∈ a.audioNotes, note.id = noteId → note.isTombstoned = true

variable {a b : PieceAnnotations}

theorem WellFormed.eq_of_id (h : a.WellFormed) {n m : AudioNote} (hn : n ∈ a.audioNotes)
    (hm : m ∈ a.audioNotes) (hid : n.id = m.id) : n = m :=
  List.inj_on_of_nodup_map (List.nodup_append.mp h.idsDistinct).2.1 hn hm hid

theorem WellFormed.noteIdsOwned (h : a.WellFormed) : a.NoteIdsOwned :=
  fun _ hn _ hm hid => congrArg AudioNote.authorId (h.eq_of_id hn hm hid)

theorem WellFormed.tombstoned (h : a.WellFormed) {note : AudioNote} (hnote : note ∈ a.audioNotes)
    (hgone : note.isTombstoned = true) : a.Tombstoned note.id :=
  ⟨⟨note, hnote, rfl⟩, fun _ hm hid => h.eq_of_id hm hnote hid ▸ hgone⟩

/-- A layer moved to the end. -/
theorem OneLayerEach.perm (h : a.OneLayerEach) {layer : InkLayer} (hlayer : layer ∈ a.layers) :
    (a.layers.filter (fun l => l.ownerId != layer.ownerId) ++ [layer]).Perm a.layers := by
  have hsame : ∀ l ∈ a.layers, (!(l.ownerId != layer.ownerId)) = (l == layer) := by
    intro l hl
    by_cases howner : l.ownerId = layer.ownerId
    · simp [h.eq hl hlayer howner]
    · have hne : l ≠ layer := fun heq => howner (congrArg InkLayer.ownerId heq)
      rw [beq_eq_false_iff_ne.mpr hne]
      simpa using howner
  have hown : a.layers.filter (fun l => !(l.ownerId != layer.ownerId)) = [layer] := by
    rw [List.filter_congr hsame, List.filter_beq, List.count_eq_one_of_mem (h.of_map _) hlayer]
    rfl
  rw [← hown]
  exact List.filter_append_perm _ _

/-- No layer of the author: none is left out. -/
theorem filter_ownerId_of_find?_eq_none {authorId : String}
    (h : a.layers.find? (fun l => l.ownerId == authorId) = none) :
    a.layers.filter (fun l => l.ownerId != authorId) = a.layers := by
  rw [List.filter_eq_self]
  intro l hl
  simpa using List.find?_eq_none.mp h l hl

/-- A stroke that is added brings its id along. -/
theorem OneLayerEach.ids_perm (h : a.OneLayerEach) (pieceId : String) (role : PieceRole)
    (stroke : InkStroke) :
    (PieceAnnotations.mk pieceId (a.layers.filter (fun l => l.ownerId != stroke.authorId) ++
      [a.layerAdding role stroke]) a.audioNotes).ids.Perm (stroke.id :: a.ids) := by
  have hlayers : ((a.layers.filter (fun l => l.ownerId != stroke.authorId) ++
      [a.layerAdding role stroke]).flatMap fun l => l.strokes.map (·.id)).Perm
        (stroke.id :: a.layers.flatMap fun l => l.strokes.map (·.id)) := by
    rw [layerAdding]
    cases hfind : a.layers.find? fun l => l.ownerId == stroke.authorId with
    | none =>
      rw [filter_ownerId_of_find?_eq_none hfind]
      simp
    | some layer =>
      have howner := List.find?_some hfind
      rw [beq_iff_eq] at howner
      have hperm := (h.perm (List.mem_of_find?_eq_some hfind)).flatMap_right
        fun l => l.strokes.map (·.id)
      rw [howner] at hperm
      refine List.Perm.trans ?_ (hperm.cons stroke.id)
      simp only [List.flatMap_append, List.flatMap_singleton, List.map_append, List.map_singleton]
      rw [← List.append_assoc]
      exact List.perm_append_singleton _ _
  exact hlayers.append_right _

/-- Strokes that are taken out of layers leave the ids of the others. -/
theorem ids_sublist {f : InkLayer → InkLayer} (pieceId : String)
    (h : ∀ l ∈ a.layers, (f l).strokes.Sublist l.strokes) :
    (PieceAnnotations.mk pieceId (a.layers.map f) a.audioNotes).ids.Sublist a.ids := by
  refine List.Sublist.append ?_ (List.Sublist.refl _)
  dsimp only
  generalize a.layers = layers at h
  induction layers with
  | nil => simp
  | cons l rest ih =>
    simp only [List.map_cons, List.flatMap_cons]
    exact ((h l List.mem_cons_self).map _).append (ih fun l hl => h l (List.mem_cons_of_mem _ hl))

end PieceAnnotations

/-! ## What a call writes -/

/-- The id that a call adds is not there yet. -/
def AnnotationCall.Fresh (current : PieceAnnotations) : AnnotationCall → Prop
  | .addStroke stroke => stroke.id ∉ current.ids
  | .addAudioNote note => note.id ∉ current.ids
  | _ => True

section

variable {pieceId user noteId : String} {now : DateTime} {role : PieceRole}
  {current a : PieceAnnotations} {call : AnnotationCall}

theorem ids_of_writes (h : current.WellFormed) (hedit : call.isEdit = true)
    (hfresh : call.Fresh current) (hwrites : call.Writes pieceId now role current a) :
    a.ids.Nodup := by
  have hdistinct := h.idsDistinct
  cases call with
  | addStroke stroke =>
    obtain rfl : a = _ := hwrites
    exact (h.oneLayerEach.ids_perm pieceId role stroke).nodup_iff.mpr
      (List.nodup_cons.mpr ⟨hfresh, hdistinct⟩)
  | eraseStroke strokeId =>
    obtain ⟨layer, hlayer, rfl⟩ := hwrites
    refine hdistinct.sublist (PieceAnnotations.ids_sublist pieceId fun l hl => ?_)
    split_ifs with howner
    · obtain rfl := h.oneLayerEach.eq hl (PieceAnnotations.mem_of_layerHolding hlayer) howner
      exact List.filter_sublist
    · exact List.Sublist.refl _
  | addAudioNote note =>
    obtain rfl : a = _ := hwrites
    have hids : (PieceAnnotations.mk pieceId current.layers (current.audioNotes ++ [note])).ids =
        current.ids ++ [note.id] := by simp [PieceAnnotations.ids]
    rw [hids]
    exact List.concat_eq_append ▸ hdistinct.concat hfresh
  | deleteAudioNote noteId =>
    obtain rfl : a = _ := hwrites
    have hids : current.audioNotes.map (fun n => (if n.id = noteId then n.tombstone now else n).id) =
        current.audioNotes.map (·.id) := by
      refine List.map_congr_left fun n _ => ?_
      split_ifs <;> rfl
    simpa [PieceAnnotations.ids, Function.comp_def, hids] using hdistinct
  | _ => cases hedit

theorem strokesOwned_of_writes (h : current.WellFormed) (hedit : call.isEdit = true)
    (hwrites : call.Writes pieceId now role current a) : a.StrokesOwned := by
  have howned := h.strokesOwned
  cases call with
  | addStroke stroke =>
    obtain rfl : a = _ := hwrites
    intro l hl s hs
    obtain hl | hl := List.mem_append.mp hl
    · exact howned l (List.mem_filter.mp hl).1 s hs
    · obtain rfl := List.mem_singleton.mp hl
      rw [PieceAnnotations.ownerId_layerAdding]
      obtain rfl | ⟨m, hm, hs⟩ := PieceAnnotations.mem_strokes_layerAdding.mp hs
      · rfl
      · have howner := List.find?_some hm
        rw [beq_iff_eq] at howner
        exact (howned m (List.mem_of_find?_eq_some hm) s hs).trans howner
  | eraseStroke strokeId =>
    obtain ⟨layer, hlayer, rfl⟩ := hwrites
    have hmem := PieceAnnotations.mem_of_layerHolding hlayer
    intro l hl s hs
    obtain ⟨hl, -⟩ | rfl := (h.oneLayerEach.mem_map_layer hmem _).mp hl
    · exact howned l hl s hs
    · exact howned layer hmem s (List.mem_filter.mp hs).1
  | addAudioNote | deleteAudioNote =>
    obtain rfl : a = _ := hwrites
    exact howned
  | _ => cases hedit

/-- What a call writes is well formed again. -/
theorem wellFormed_of_writes (h : current.WellFormed) (hedit : call.isEdit = true)
    (hfresh : call.Fresh current)
    (hwritten : call.written pieceId user now role current = .ok a) : a.WellFormed :=
  ⟨AnnotationCall.written_oneLayerEach h.oneLayerEach hwritten,
    strokesOwned_of_writes h hedit (AnnotationCall.written_ok hwritten),
    ids_of_writes h hedit hfresh (AnnotationCall.written_ok hwritten)⟩

/-- A call leaves deleted notes deleted. -/
theorem tombstoned_of_writes (hgone : current.Tombstoned noteId) (hedit : call.isEdit = true)
    (hfresh : call.Fresh current) (hwrites : call.Writes pieceId now role current a) :
    a.Tombstoned noteId := by
  obtain ⟨⟨note, hnote, rfl⟩, hall⟩ := hgone
  cases call with
  | addStroke stroke =>
    obtain rfl : a = _ := hwrites
    exact ⟨⟨note, hnote, rfl⟩, hall⟩
  | eraseStroke strokeId =>
    obtain ⟨layer, -, rfl⟩ := hwrites
    exact ⟨⟨note, hnote, rfl⟩, hall⟩
  | addAudioNote added =>
    obtain rfl : a = _ := hwrites
    refine ⟨⟨note, List.mem_append_left _ hnote, rfl⟩, fun m hm hid => ?_⟩
    obtain hm | hm := List.mem_append.mp hm
    · exact hall m hm hid
    · obtain rfl := List.mem_singleton.mp hm
      refine absurd ?_ hfresh
      rw [hid]
      exact List.mem_append_right _ (List.mem_map_of_mem hnote)
  | deleteAudioNote deleted =>
    obtain rfl : a = _ := hwrites
    refine ⟨⟨_, List.mem_map_of_mem hnote, ?_⟩, fun m hm hid => ?_⟩
    · split_ifs <;> rfl
    · obtain ⟨n, hn, rfl⟩ := List.mem_map.mp hm
      split_ifs at hid ⊢ with hdeleted
      · rfl
      · exact hall n hn hid
  | _ => cases hedit

/-- A call stamps no layer. -/
theorem unstamped_of_writes (h : current.writtenAt none = current) (hedit : call.isEdit = true)
    (hwrites : call.Writes pieceId now role current a) : a.writtenAt none = a := by
  have hlayers : ∀ l ∈ current.layers, l.updatedAt = none := by
    intro l hl
    have hmem : l ∈ (current.writtenAt none).layers := by rwa [h]
    obtain ⟨m, -, rfl⟩ := List.mem_map.mp hmem
    rfl
  have hwritten : ∀ l ∈ a.layers, l.updatedAt = none := by
    intro l hl
    cases call with
    | addStroke stroke =>
      obtain rfl : a = _ := hwrites
      obtain hl | hl := List.mem_append.mp hl
      · exact hlayers l (List.mem_filter.mp hl).1
      · obtain rfl := List.mem_singleton.mp hl
        rw [PieceAnnotations.layerAdding]
        cases hfind : current.layers.find? fun l => l.ownerId == stroke.authorId with
        | none => rfl
        | some layer => exact hlayers layer (List.mem_of_find?_eq_some hfind)
    | eraseStroke strokeId =>
      obtain ⟨layer, -, rfl⟩ := hwrites
      obtain ⟨m, hm, rfl⟩ := List.mem_map.mp hl
      split_ifs <;> exact hlayers m hm
    | addAudioNote | deleteAudioNote =>
      obtain rfl : a = _ := hwrites
      exact hlayers l hl
    | _ => cases hedit
  have hmap : a.layers.map (fun l => { l with updatedAt := none }) = a.layers.map id := by
    refine List.map_congr_left fun l hl => ?_
    have hnone := hwritten l hl
    cases l
    cases hnone
    rfl
  rw [PieceAnnotations.writtenAt, hmap, List.map_id]

end

/-! ## The device -/

/-- The piece of an edit, and its call. -/
def Edit.pieceId : Edit → String
  | .addStroke pieceId _ | .eraseStroke pieceId _ | .addAudioNote pieceId _
  | .deleteAudioNote pieceId _ => pieceId

def Edit.call : Edit → AnnotationCall
  | .addStroke _ stroke => .addStroke stroke
  | .eraseStroke _ strokeId => .eraseStroke strokeId
  | .addAudioNote _ note => .addAudioNote note
  | .deleteAudioNote _ noteId => .deleteAudioNote noteId

theorem Edit.perform_eq (env : Env) (edit : Edit) :
    edit.perform env = edit.call.perform env edit.pieceId := by
  cases edit <;> rfl

theorem Edit.isEdit_call (edit : Edit) : edit.call.isEdit = true := by
  cases edit <;> rfl

namespace Device

/-- What a repository over the same preferences reads; `none` when they cannot be decoded. -/
def reopened (zone : TimeZone) (d : Device) (pieceId : String) : Option PieceAnnotations :=
  match d.storage.annotations.get pieceId with
  | none => some (.empty pieceId)
  | some stored => AnnotationRecords.pieceAnnotationsFromJson zone
      (AnnotationRecords.pieceAnnotationsToJson zone stored)

/-- The cache holds what the preferences do, in which no layer has a time of writing. -/
structure Stored (d : Device) : Prop where
  cached : ∀ pieceId a, d.annotationCache.get pieceId = some a → a = d.storedAnnotations pieceId
  unstamped : ∀ pieceId, (d.storedAnnotations pieceId).writtenAt none = d.storedAnnotations pieceId

variable {d d' : Device} {env : Env} {edit : Edit} {pieceId : String} {a : PieceAnnotations}

theorem Stored.annotationsFor_eq (h : d.Stored) (pieceId : String) :
    d.annotationsFor pieceId = d.storedAnnotations pieceId := by
  rw [annotationsFor]
  cases hcached : d.annotationCache.get pieceId with
  | none => rfl
  | some a => exact h.cached pieceId a hcached

/-- A fresh repository reads what the running one has. -/
theorem Stored.reopened_eq (h : d.Stored) {zone : TimeZone}
    (hreads : (d.annotationsFor pieceId).ReadsBack zone) :
    d.reopened zone pieceId = some (d.annotationsFor pieceId) := by
  have hunstamped := h.unstamped pieceId
  rw [h.annotationsFor_eq] at hreads ⊢
  rw [storedAnnotations] at hreads hunstamped ⊢
  rw [reopened]
  cases hstored : d.storage.annotations.get pieceId with
  | none => rfl
  | some stored =>
    rw [hstored, Option.getD_some] at hreads hunstamped
    have hdecoded := AnnotationRecords.pieceAnnotationsFromJson_toJson_iff.mpr hreads
    exact hdecoded.trans (congrArg some hunstamped)

theorem Stored.cache (h : d.Stored) (pieceId : String) :
    (d.cacheAnnotations pieceId (d.annotationsFor pieceId)).Stored := by
  refine ⟨fun q a hcached => ?_, h.unstamped⟩
  rw [cacheAnnotations, Assoc.get_set] at hcached
  split_ifs at hcached with hq
  · obtain rfl := Option.some.inj hcached
    rw [hq]
    exact h.annotationsFor_eq pieceId
  · exact h.cached q a hcached

theorem Stored.write (h : d.Stored) (hunstamped : a.writtenAt none = a) :
    ((d.cacheAnnotations pieceId a).storeAnnotations pieceId a).Stored := by
  have hstored : ∀ q, ((d.cacheAnnotations pieceId a).storeAnnotations pieceId a).storedAnnotations
      q = if q = pieceId then a else d.storedAnnotations q := by
    intro q
    rw [storedAnnotations, storeAnnotations, Assoc.get_set]
    split_ifs
    · exact hunstamped
    · rfl
  refine ⟨fun q b hcached => ?_, fun q => ?_⟩
  · rw [hstored]
    rw [storeAnnotations, cacheAnnotations, Assoc.get_set] at hcached
    split_ifs at hcached ⊢
    · exact (Option.some.inj hcached).symm
    · exact h.cached q b hcached
  · rw [hstored]
    split_ifs
    · exact hunstamped
    · exact h.unstamped q

/-- A call that fails has at most put into the cache what it has read. -/
theorem failed_perform {e : Failure} (hstored : env.fails .persistAnnotations = false)
    (h : (edit.perform env).exec d = (.error e, d')) :
    d' = d ∨ d' = d.cacheAnnotations edit.pieceId (d.annotationsFor edit.pieceId) := by
  have hemit : ∀ (b : PieceAnnotations) (t : Device),
      (emitAnnotations env edit.pieceId b).exec t ≠ (.error e, d') := by
    intro b t
    rw [exec_emitAnnotations, hstored, if_neg Bool.false_ne_true]
    simp
  cases edit with
  | addStroke pieceId stroke =>
    simp only [Edit.perform, Duet.addStroke] at h
    split_ifs at h
    · exact .inl (congrArg Prod.snd h).symm
    · rw [exec_bind_of_ok (exec_loadAnnotations pieceId d),
        exec_bind_of_ok (exec_layerWithStroke_eq _ _ _ _)] at h
      exact absurd h (hemit _ _)
  | eraseStroke pieceId strokeId =>
    simp only [Edit.perform, Duet.eraseStroke] at h
    rw [exec_bind_of_ok (exec_loadAnnotations pieceId d)] at h
    cases hfind : (d.annotationsFor pieceId).layers.find? fun l =>
      l.strokes.any fun s => s.id == strokeId with
    | none =>
      simp only [hfind] at h
      exact .inr (congrArg Prod.snd h).symm
    | some layer =>
      simp only [hfind] at h
      split_ifs at h
      · exact .inr (congrArg Prod.snd h).symm
      · exact absurd h (hemit _ _)
  | addAudioNote pieceId note =>
    simp only [Edit.perform, Duet.addAudioNote] at h
    split_ifs at h
    · exact .inl (congrArg Prod.snd h).symm
    · rw [exec_bind_of_ok (exec_loadAnnotations pieceId d)] at h
      exact absurd h (hemit _ _)
  | deleteAudioNote pieceId noteId =>
    simp only [Edit.perform, Duet.deleteAudioNote] at h
    rw [exec_bind_of_ok (exec_loadAnnotations pieceId d)] at h
    cases hfind : (d.annotationsFor pieceId).audioNotes.find? fun n =>
      n.id == noteId && !n.isTombstoned with
    | none =>
      simp only [hfind] at h
      exact .inr (congrArg Prod.snd h).symm
    | some note =>
      simp only [hfind] at h
      split_ifs at h
      · exact .inr (congrArg Prod.snd h).symm
      · exact absurd h (hemit _ _)

/-! ## Runs -/

/-- Every piece is well formed, and the cache holds what the preferences do. -/
structure Sound (d : Device) : Prop where
  wellFormed : ∀ pieceId, (d.annotationsFor pieceId).WellFormed
  stored : d.Stored

/-- A call of `user`, while the preferences can be written and what is added has a fresh id. -/
structure Allows (user : String) (d : Device) (env : Env) (edit : Edit) : Prop where
  currentUserId : env.currentUserId = user
  stores : env.fails .persistAnnotations = false
  fresh : edit.call.Fresh (d.annotationsFor edit.pieceId)

/-- An edit keeps the device sound. -/
theorem Sound.perform (h : d.Sound) {user : String} (hallows : Allows user d env edit) :
    ((edit.perform env).exec d).2.Sound ∧
      ∀ pieceId noteId, (d.annotationsFor pieceId).Tombstoned noteId →
        (((edit.perform env).exec d).2.annotationsFor pieceId).Tombstoned noteId := by
  have hexec := exec_perform env edit.pieceId edit.call d hallows.stores
  rw [← Edit.perform_eq] at hexec
  have hedit := edit.isEdit_call
  cases hwritten : edit.call.written edit.pieceId env.currentUserId
    (env.clock .persistAnnotations) (d.roleFor edit.pieceId env.currentUserId)
    (d.annotationsFor edit.pieceId) with
  | error e =>
    simp only [hwritten] at hexec
    obtain ⟨t, hexec, -, -, hsame⟩ := hexec
    have hstored : t.Stored := by
      obtain rfl | rfl := failed_perform hallows.stores hexec
      · exact h.stored
      · exact h.stored.cache _
    rw [hexec]
    refine ⟨⟨fun pieceId => ?_, hstored⟩, fun pieceId noteId hgone => ?_⟩
    · exact (hsame pieceId).symm ▸ h.wellFormed pieceId
    · exact (hsame pieceId).symm ▸ hgone
  | ok a =>
    simp only [hwritten] at hexec
    have hwrites := AnnotationCall.written_ok hwritten
    have hcurrent := h.wellFormed edit.pieceId
    have hput : d.put edit.pieceId a edit.call =
        (d.cacheAnnotations edit.pieceId a).storeAnnotations edit.pieceId a := by
      cases edit <;> rfl
    have hunstamped : a.writtenAt none = a := by
      refine unstamped_of_writes ?_ hedit hwrites
      rw [h.stored.annotationsFor_eq]
      exact h.stored.unstamped _
    rw [hexec, hput]
    have hafter : ∀ q, ((d.cacheAnnotations edit.pieceId a).storeAnnotations edit.pieceId
        a).annotationsFor q = if q = edit.pieceId then a else d.annotationsFor q := by
      intro q
      rw [annotationsFor_storeAnnotations_cached, annotationsFor_cacheAnnotations]
    refine ⟨⟨fun pieceId => ?_, h.stored.write hunstamped⟩, fun pieceId noteId hgone => ?_⟩
    · rw [hafter]
      split_ifs
      · exact wellFormed_of_writes hcurrent hedit hallows.fresh hwritten
      · exact h.wellFormed pieceId
    · rw [hafter]
      split_ifs with hq
      · exact tombstoned_of_writes (hq ▸ hgone) hedit hallows.fresh hwrites
      · exact hgone

instance (current : PieceAnnotations) (call : AnnotationCall) :
    Decidable (call.Fresh current) := by
  unfold AnnotationCall.Fresh
  split <;> infer_instance

instance (user : String) (d : Device) (env : Env) (edit : Edit) :
    Decidable (Allows user d env edit) :=
  decidable_of_iff (env.currentUserId = user ∧ env.fails .persistAnnotations = false ∧
      edit.call.Fresh (d.annotationsFor edit.pieceId))
    ⟨fun h => ⟨h.1, h.2.1, h.2.2⟩, fun h => ⟨h.1, h.2, h.3⟩⟩

/-- One call of `user`. -/
def editStep (user : String) (d : Device) (c : Env × Edit) : Option Device :=
  if Allows user d c.1 c.2 then some ((c.2.perform c.1).exec d).2 else none

/-- What `user` has done to a sound device: the other authors' annotations are as they were, and
what was deleted has stayed so. -/
structure Isolated (user : String) (d d' : Device) : Prop where
  sound : d'.Sound
  sameOthers : d.SameOthers user d'
  tombstoned : ∀ pieceId noteId, (d.annotationsFor pieceId).Tombstoned noteId →
    (d'.annotationsFor pieceId).Tombstoned noteId

theorem sound_step {user : String} {c : Env × Edit} {t : Device} (h : Isolated user d d')
    (hstep : editStep user d' c = some t) : Isolated user d t := by
  unfold editStep at hstep
  split_ifs at hstep with hallows
  obtain rfl := Option.some.inj hstep
  obtain ⟨hsound, hgone⟩ := h.sound.perform hallows
  have hothers := sameOthers_perform c.1 c.2 (fun q => (h.sound.wellFormed q).strokesOwned)
    fun q => (h.sound.wellFormed q).noteIdsOwned
  rw [hallows.currentUserId] at hothers
  refine ⟨hsound, fun author hne q => ?_, fun q noteId hbefore => ?_⟩
  · have hfirst := h.sameOthers author hne q
    have hlast := hothers author hne q
    exact ⟨hlast.1.trans hfirst.1, hlast.2.trans hfirst.2⟩
  · exact hgone q noteId (h.tombstoned q noteId hbefore)

/-- What a failed call leaves behind: at most, a piece that was not in the cache has been read. -/
structure LeavesStored (d d' : Device) : Prop where
  storage : d'.storage = d.storage
  cache : ∀ pieceId, d'.annotationCache.get pieceId = d.annotationCache.get pieceId ∨
    d.annotationCache.get pieceId = none ∧
      d'.annotationCache.get pieceId = some (d.storedAnnotations pieceId)

theorem leavesStored_of_failed {e : Failure} (hstored : env.fails .persistAnnotations = false)
    (h : (edit.perform env).exec d = (.error e, d')) : d.LeavesStored d' := by
  obtain rfl | rfl := failed_perform hstored h
  · exact ⟨rfl, fun _ => .inl rfl⟩
  · refine ⟨rfl, fun q => ?_⟩
    rw [cacheAnnotations, Assoc.get_set]
    split_ifs with hq
    · subst hq
      cases hcached : d.annotationCache.get edit.pieceId with
      | none => exact .inr ⟨rfl, by simp [annotationsFor, hcached, storedAnnotations]⟩
      | some a => exact .inl (by simp [annotationsFor, hcached])
    · exact .inl rfl

/-- In every state that a run of one user's edits visits: the annotations are well formed, those of
other authors are what they were, what was deleted is deleted, a fresh repository reads the same,
and a call that fails leaves the preferences as they are. -/
theorem isolates {user : String} (h : d.Sound) {calls : List (Env × Edit)}
    (hrun : run (editStep user) d calls = some d') :
    (∀ pieceId, (d'.annotationsFor pieceId).WellFormed) ∧
    d.SameOthers user d' ∧
    (∀ pieceId, ∀ note ∈ (d.annotationsFor pieceId).audioNotes, note.isTombstoned = true →
      (d'.annotationsFor pieceId).Tombstoned note.id) ∧
    (∀ zone pieceId, (d'.annotationsFor pieceId).ReadsBack zone →
      d'.reopened zone pieceId = some (d'.annotationsFor pieceId)) ∧
    ∀ env edit e t, Allows user d' env edit → (edit.perform env).exec d' = (.error e, t) →
      d'.LeavesStored t := by
  have hstart : Isolated user d d := ⟨h, fun _ _ _ => ⟨rfl, rfl⟩, fun _ _ => id⟩
  have hisolated : Isolated user d d' :=
    run_invariant' (fun _ _ _ hs hstep => sound_step hs hstep) hstart hrun
  refine ⟨hisolated.sound.wellFormed, hisolated.sameOthers, fun q note hnote hgone => ?_,
    fun zone q hreads => hisolated.sound.stored.reopened_eq hreads,
    fun env edit e t hallows hfails => leavesStored_of_failed hallows.stores hfails⟩
  exact hisolated.tombstoned q note.id ((h.wellFormed q).tombstoned hnote hgone)

/-! ### A call that fails -/

theorem sound_fresh : Device.fresh.Sound where
  wellFormed _ := ⟨List.nodup_nil, nofun, List.nodup_nil⟩
  stored := ⟨nofun, fun _ => rfl⟩

/-- `ann` records a note and deletes it, is refused a stroke of bob's, and adds one of hers. -/
def annsEdits : List (Env × Edit) :=
  [(Env.quiet "ann" noon, .addAudioNote "p"
      ⟨"n", "ann", "take", 0, 1000, ⟨0, 0, 0, 1, 1⟩, noon, none⟩),
    (Env.quiet "ann" noon, .deleteAudioNote "p" "n"),
    (Env.quiet "ann" noon, .addStroke "p" ⟨"s", "bob", 0, "red", []⟩),
    (Env.quiet "ann" noon, .addStroke "p" ⟨"s", "ann", 0, "red", []⟩)]

theorem isolates_annsEdits : ∃ d', run (editStep "ann") Device.fresh annsEdits = some d' ∧
    (d'.annotationsFor "p").WellFormed ∧ Device.fresh.SameOthers "ann" d' := by
  have hruns : (run (editStep "ann") Device.fresh annsEdits).isSome := by decide +kernel
  obtain ⟨d', hrun⟩ := Option.isSome_iff_exists.mp hruns
  obtain ⟨hwell, hothers, -⟩ := isolates sound_fresh hrun
  exact ⟨d', hrun, hwell "p", hothers⟩

/-- The first call on a piece fills the cache, also if it fails. -/
theorem not_leavesCache :
    ¬∀ (user : String) (d : Device) (env : Env) (edit : Edit) (e : Failure) (t : Device), d.Sound →
      Allows user d env edit → (edit.perform env).exec d = (.error e, t) →
        t.annotationCache = d.annotationCache ∧ t.storage = d.storage := by
  intro h
  have hcache := h "ann" Device.fresh (Env.quiet "ann" noon) (.eraseStroke "p" "s")
    (.stateError "Unknown stroke: s")
    (Device.fresh.cacheAnnotations "p" (.empty "p")) sound_fresh (by decide +kernel)
    (by decide +kernel)
  exact absurd hcache.1 (by decide +kernel)

end Device

end Duet
