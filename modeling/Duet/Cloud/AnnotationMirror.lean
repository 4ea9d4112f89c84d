import Duet.Cloud.AnnotationRepository
import Duet.Device.AnnotationCalls

/-!
# The two annotation repositories

`LocalAnnotationRepository` keeps the annotations of a piece as one value, the Firestore repository
as one document for each layer and note. `Mirrors` relates the two, and every call keeps it.

## Main results

* `PieceAnnotations.Tidy.written` — what a call writes is tidy again.
* `Mirrors.perform` — a call ends the same way on both sides and keeps them related.
-/

namespace Duet

open Lib

/-- The repository's operation in the cloud for a call. -/
def AnnotationCall.performCloud (user : String) (now : DateTime) (pieceId : String) :
    AnnotationCall → AdminProgram Unit
  | .addStroke stroke => Firestore.addStroke user now pieceId stroke
  | .eraseStroke strokeId => Firestore.eraseStroke user now pieceId strokeId
  | .addAudioNote note => Firestore.addAudioNote user pieceId note
  | .deleteAudioNote noteId => Firestore.deleteAudioNote user now pieceId noteId
  | .replaceAuthorSlice authorId role strokes audioNotes =>
    Firestore.replaceAuthorSlice now pieceId authorId role strokes audioNotes
  | .removeAuthorSlice authorId => Firestore.removeAuthorSlice pieceId authorId
  | .clearPiece => Firestore.clearPiece pieceId

/-- The role of an author on a piece of that owner. -/
def roleUnder (ownerId authorId : String) : PieceRole :=
  if authorId = ownerId then .owner else .collaborator

/-- The annotations of a piece of `ownerId`'s as the calls keep them. -/
structure PieceAnnotations.Tidy (pieceId ownerId : String) (a : PieceAnnotations) : Prop where
  id : a.pieceId = pieceId
  oneLayerEach : a.OneLayerEach
  noteIds : (a.audioNotes.map (·.id)).Nodup
  role : ∀ l ∈ a.layers, l.role = roleUnder ownerId l.ownerId
  unstamped : ∀ l ∈ a.layers, l.updatedAt = none
  strokesOwned : a.StrokesOwned
  strokeIds : ∀ l ∈ a.layers, ∀ m ∈ a.layers, ∀ s ∈ l.strokes, ∀ t ∈ m.strokes, s.id = t.id →
    l = m

/-- The documents of a piece hold what the annotations hold. -/
structure Mirrors (pieceId ownerId : String) (a : PieceAnnotations) (cloud : Cloud) : Prop where
  tidy : a.Tidy pieceId ownerId
  layerDoc : ∀ l ∈ a.layers, ∃ rev updatedAt,
    cloud.doc (.layers pieceId l.ownerId) = some (layerToFirestore l rev updatedAt)
  noLayerDoc : ∀ uid, uid ∉ a.layers.map (·.ownerId) → cloud.doc (.layers pieceId uid) = none
  noteDoc : ∀ n ∈ a.audioNotes, cloud.doc (.notes pieceId n.id) = some (audioNoteToFirestore n)
  noNoteDoc : ∀ id, id ∉ a.audioNotes.map (·.id) → cloud.doc (.notes pieceId id) = none
  piece : ∃ fields, cloud.doc (.pieces pieceId) = some fields ∧
    fields.read "ownerId" = .string ownerId

/-- The ids of a call are new, or stay with their author: an added id is not on the piece, and the
ids of a slice are not those of another author's strokes or notes. -/
def AnnotationCall.FreshIds (a : PieceAnnotations) : AnnotationCall → Prop
  | .addStroke stroke => ∀ l ∈ a.layers, ∀ s ∈ l.strokes, s.id ≠ stroke.id
  | .addAudioNote note => ∀ n ∈ a.audioNotes, n.id ≠ note.id
  | .replaceAuthorSlice authorId _ strokes audioNotes =>
    (∀ l ∈ a.layers, l.ownerId ≠ authorId → ∀ s ∈ l.strokes, ∀ t ∈ strokes, s.id ≠ t.id) ∧
      (∀ n ∈ a.audioNotes, n.authorId ≠ authorId → ∀ m ∈ audioNotes, n.id ≠ m.id) ∧
        (audioNotes.map (·.id)).Nodup
  | _ => True

/-- A slice is of its author's, under the role that the piece gives them. -/
def AnnotationCall.WellFormed (ownerId : String) : AnnotationCall → Prop
  | .replaceAuthorSlice authorId role strokes audioNotes => role = roleUnder ownerId authorId ∧
      (∀ s ∈ strokes, s.authorId = authorId) ∧ ∀ n ∈ audioNotes, n.authorId = authorId
  | _ => True

/-- The two sides end the same way: with a success, or the same failure. -/
def SameOutcome : Except Failure Unit → Except CloudFailure Unit → Prop
  | .ok (), .ok () => True
  | .error (.stateError m), .error (.stateError m') => m = m'
  | .error (.ownershipViolation id reason), .error (.ownershipViolation id' reason') =>
    id = id' ∧ reason = reason'
  | _, _ => False

/-! ## What a call keeps -/

namespace PieceAnnotations.Tidy

variable {pieceId ownerId user : String} {now : DateTime} {a b : PieceAnnotations}
  {call : AnnotationCall}

theorem empty (pieceId ownerId : String) : (PieceAnnotations.empty pieceId).Tidy pieceId ownerId :=
  ⟨rfl, List.nodup_nil, List.nodup_nil, by simp [PieceAnnotations.empty],
    by simp [PieceAnnotations.empty], by simp [PieceAnnotations.empty,
      PieceAnnotations.StrokesOwned], by simp [PieceAnnotations.empty]⟩

/-- Replacing a layer keeps the annotations tidy. -/
theorem setLayer (h : a.Tidy pieceId ownerId) (hid : b.pieceId = pieceId) (hone : b.OneLayerEach)
    (hnotes : b.audioNotes.map (·.id) = a.audioNotes.map (·.id)) (layer : InkLayer)
    (hmem : ∀ l, l ∈ b.layers ↔ (l ∈ a.layers ∧ l.ownerId ≠ layer.ownerId) ∨ l = layer)
    (hrole : layer.role = roleUnder ownerId layer.ownerId) (hunstamped : layer.updatedAt = none)
    (howned : ∀ s ∈ layer.strokes, s.authorId = layer.ownerId)
    (hapart : ∀ l ∈ a.layers, l.ownerId ≠ layer.ownerId → ∀ s ∈ l.strokes, ∀ t ∈ layer.strokes,
      s.id ≠ t.id) : b.Tidy pieceId ownerId where
  id := hid
  oneLayerEach := hone
  noteIds := hnotes ▸ h.noteIds
  role l hl := by
    obtain ⟨hl, -⟩ | rfl := (hmem l).mp hl
    · exact h.role l hl
    · exact hrole
  unstamped l hl := by
    obtain ⟨hl, -⟩ | rfl := (hmem l).mp hl
    · exact h.unstamped l hl
    · exact hunstamped
  strokesOwned l hl := by
    obtain ⟨hl, -⟩ | rfl := (hmem l).mp hl
    · exact h.strokesOwned l hl
    · exact howned
  strokeIds l hl m hm s hs t ht heq := by
    obtain ⟨hl, hlne⟩ | rfl := (hmem l).mp hl <;> obtain ⟨hm, hmne⟩ | rfl := (hmem m).mp hm
    · exact h.strokeIds l hl m hm s hs t ht heq
    · exact absurd heq (hapart l hl hlne s hs t ht)
    · exact absurd heq.symm (hapart m hm hmne t ht s hs)
    · rfl

/-- Changing notes keeps the annotations tidy. -/
theorem setNotes (h : a.Tidy pieceId ownerId) {notes : List AudioNote}
    (hnotes : (notes.map (·.id)).Nodup) : (⟨pieceId, a.layers, notes⟩ : PieceAnnotations).Tidy
      pieceId ownerId :=
  ⟨rfl, h.oneLayerEach, hnotes, h.role, h.unstamped, h.strokesOwned, h.strokeIds⟩

/-- A stroke of the user's is added to their layer, which it may be the first of. -/
theorem addStroke (h : a.Tidy pieceId ownerId) {stroke : InkStroke}
    (hfresh : ∀ l ∈ a.layers, ∀ s ∈ l.strokes, s.id ≠ stroke.id)
    (hid : b.pieceId = pieceId) (hone : b.OneLayerEach)
    (hlayers : b.layers = a.layers.filter (fun l => l.ownerId != stroke.authorId) ++
      [a.layerAdding (roleUnder ownerId stroke.authorId) stroke])
    (hnotes : b.audioNotes = a.audioNotes) : b.Tidy pieceId ownerId := by
  have howner : (a.layerAdding (roleUnder ownerId stroke.authorId) stroke).ownerId =
      stroke.authorId :=
    a.ownerId_layerAdding stroke
  have hlayer : a.layerAdding (roleUnder ownerId stroke.authorId) stroke =
      ⟨stroke.authorId, roleUnder ownerId stroke.authorId, [stroke], none⟩ ∨
      ∃ l ∈ a.layers, l.ownerId = stroke.authorId ∧
        a.layerAdding (roleUnder ownerId stroke.authorId) stroke =
          { l with strokes := l.strokes ++ [stroke] } := by
    rw [PieceAnnotations.layerAdding]
    cases hfind : a.layers.find? fun l => l.ownerId == stroke.authorId with
    | none => exact .inl rfl
    | some l =>
      have hl := List.find?_some hfind
      exact .inr ⟨l, List.mem_of_find?_eq_some hfind, beq_iff_eq.mp hl, rfl⟩
  refine h.setLayer hid hone (by rw [hnotes])
    (a.layerAdding (roleUnder ownerId stroke.authorId) stroke) (fun l => ?_) ?_ ?_ ?_ ?_
  · rw [howner, hlayers]
    simp
  · obtain heq | ⟨l, hl, -, heq⟩ := hlayer
    · rw [heq]
    · rw [heq]
      exact h.role l hl
  · obtain heq | ⟨l, hl, -, heq⟩ := hlayer
    · rw [heq]
    · rw [heq]
      exact h.unstamped l hl
  · rw [howner]
    obtain heq | ⟨l, hl, hsame, heq⟩ := hlayer
    · rw [heq]
      simp
    · intro s hs
      rw [heq] at hs
      obtain hs | hs := List.mem_append.mp hs
      · exact (h.strokesOwned l hl s hs).trans hsame
      · rw [List.mem_singleton.mp hs]
  · intro l hl hne s hs t ht heq
    rw [howner] at hne
    obtain hnew | ⟨m, hm, hsame, hnew⟩ := hlayer
    · rw [hnew, List.mem_singleton] at ht
      exact hfresh l hl s hs (heq.trans (congrArg InkStroke.id ht))
    · rw [hnew] at ht
      obtain ht | ht := List.mem_append.mp ht
      · exact hne (h.strokeIds l hl m hm s hs t ht heq ▸ hsame)
      · exact hfresh l hl s hs (heq.trans (congrArg InkStroke.id (List.mem_singleton.mp ht)))

/-- A stroke is taken out of the layer that holds it. -/
theorem eraseStroke (h : a.Tidy pieceId ownerId) {layer : InkLayer} (hlayer : layer ∈ a.layers)
    (strokeId : String) (hid : b.pieceId = pieceId) (hone : b.OneLayerEach)
    (hlayers : b.layers = a.layers.map fun l => if l.ownerId = layer.ownerId then
      { l with strokes := layer.strokes.filter fun s => s.id != strokeId } else l)
    (hnotes : b.audioNotes = a.audioNotes) : b.Tidy pieceId ownerId := by
  refine h.setLayer hid hone (by rw [hnotes])
    { layer with strokes := layer.strokes.filter fun s => s.id != strokeId } (fun l => ?_)
      (h.role layer hlayer) (h.unstamped layer hlayer) ?_ ?_
  · rw [hlayers]
    exact h.oneLayerEach.mem_map_layer hlayer _
  · intro s hs
    exact h.strokesOwned layer hlayer s (List.mem_filter.mp hs).1
  · intro l hl hne s hs t ht heq
    obtain rfl := h.strokeIds l hl layer hlayer s hs t (List.mem_filter.mp ht).1 heq
    exact hne rfl

/-- A note with a new id is added. -/
theorem addAudioNote (h : a.Tidy pieceId ownerId) {note : AudioNote}
    (hfresh : ∀ n ∈ a.audioNotes, n.id ≠ note.id) :
    (⟨pieceId, a.layers, a.audioNotes ++ [note]⟩ : PieceAnnotations).Tidy pieceId ownerId := by
  refine h.setNotes ?_
  rw [List.map_append, List.nodup_append]
  refine ⟨h.noteIds, by simp, ?_⟩
  intro id hid id' hid' heq
  obtain ⟨n, hn, rfl⟩ := List.mem_map.mp hid
  simp only [List.map_cons, List.map_nil, List.mem_singleton] at hid'
  exact hfresh n hn (heq.trans hid')

/-- A note that is deleted keeps its id. -/
theorem deleteAudioNote (h : a.Tidy pieceId ownerId) (noteId : String) (now : DateTime) :
    (⟨pieceId, a.layers, a.audioNotes.map fun n => if n.id = noteId then n.tombstone now else n⟩ :
      PieceAnnotations).Tidy pieceId ownerId := by
  refine h.setNotes ?_
  have hids : (a.audioNotes.map fun n => if n.id = noteId then n.tombstone now else n).map
      (·.id) = a.audioNotes.map (·.id) := by
    rw [List.map_map]
    refine List.map_congr_left fun n _ => ?_
    simp only [Function.comp_apply]
    split_ifs <;> rfl
  rw [hids]
  exact h.noteIds

/-- An author's slice is replaced by one whose ids are not those of the others'. -/
theorem replaceAuthorSlice (h : a.Tidy pieceId ownerId) {authorId : String}
    {strokes : List InkStroke} {audioNotes : List AudioNote}
    (hstrokes : ∀ s ∈ strokes, s.authorId = authorId)
    (hstrokeIds : ∀ l ∈ a.layers, l.ownerId ≠ authorId → ∀ s ∈ l.strokes, ∀ t ∈ strokes,
      s.id ≠ t.id)
    (hnoteIds : ∀ n ∈ a.audioNotes, n.authorId ≠ authorId → ∀ m ∈ audioNotes, n.id ≠ m.id)
    (hnodup : (audioNotes.map (·.id)).Nodup) (hid : b.pieceId = pieceId) (hone : b.OneLayerEach)
    (hlayers : b.layers = a.layers.filter (fun l => l.ownerId != authorId) ++
      [⟨authorId, roleUnder ownerId authorId, strokes, none⟩])
    (hnotes : b.audioNotes = a.audioNotes.filter (fun n => n.authorId != authorId) ++ audioNotes) :
    b.Tidy pieceId ownerId := by
  have hset : (⟨pieceId, b.layers, a.audioNotes⟩ : PieceAnnotations).Tidy pieceId ownerId :=
    h.setLayer rfl hone rfl ⟨authorId, roleUnder ownerId authorId, strokes, none⟩
      (fun l => by simp [hlayers]) rfl rfl hstrokes hstrokeIds
  have hids : (b.audioNotes.map (·.id)).Nodup := by
    rw [hnotes, List.map_append, List.nodup_append]
    refine ⟨h.noteIds.sublist (List.filter_sublist.map _), hnodup, ?_⟩
    intro id hid id' hid' heq
    obtain ⟨n, hn, rfl⟩ := List.mem_map.mp hid
    obtain ⟨m, hm, rfl⟩ := List.mem_map.mp hid'
    obtain ⟨hn, hne⟩ := List.mem_filter.mp hn
    exact hnoteIds n hn (by simpa using hne) m hm heq
  exact hid ▸ hset.setNotes hids

/-- An author's slice is taken out. -/
theorem removeAuthorSlice (h : a.Tidy pieceId ownerId) (authorId : String) :
    (⟨pieceId, a.layers.filter (fun l => l.ownerId != authorId),
      a.audioNotes.filter fun n => n.authorId != authorId⟩ : PieceAnnotations).Tidy
        pieceId ownerId := by
  have hsub : ∀ l ∈ a.layers.filter (fun l => l.ownerId != authorId), l ∈ a.layers :=
    fun l hl => (List.mem_filter.mp hl).1
  exact ⟨rfl, h.oneLayerEach.sublist (List.filter_sublist.map _),
    h.noteIds.sublist (List.filter_sublist.map _), fun l hl => h.role l (hsub l hl),
    fun l hl => h.unstamped l (hsub l hl), fun l hl => h.strokesOwned l (hsub l hl),
    fun l hl m hm => h.strokeIds l (hsub l hl) m (hsub m hm)⟩

/-- What a call writes is tidy again. -/
theorem written (h : a.Tidy pieceId ownerId) (hfresh : call.FreshIds a)
    (hformed : call.WellFormed ownerId)
    (hwritten : call.written pieceId user now (roleUnder ownerId user) a = .ok b) :
    b.Tidy pieceId ownerId := by
  have hone := AnnotationCall.written_oneLayerEach h.oneLayerEach hwritten
  have hok := AnnotationCall.written_ok hwritten
  cases call with
  | addStroke stroke =>
    obtain rfl : stroke.authorId = user := by
      by_contra hne
      simp [AnnotationCall.written, hne] at hwritten
    obtain rfl : b = _ := hok
    exact h.addStroke hfresh rfl hone rfl rfl
  | eraseStroke strokeId =>
    obtain ⟨layer, hlayer, rfl⟩ := hok
    exact h.eraseStroke (PieceAnnotations.mem_of_layerHolding hlayer) strokeId rfl hone rfl rfl
  | addAudioNote note =>
    obtain rfl : b = _ := hok
    exact h.addAudioNote hfresh
  | deleteAudioNote noteId =>
    obtain rfl : b = _ := hok
    exact h.deleteAudioNote noteId now
  | replaceAuthorSlice authorId role strokes audioNotes =>
    obtain rfl : b = _ := hok
    obtain ⟨rfl, hstrokes, -⟩ := hformed
    obtain ⟨hstrokeIds, hnoteIds, hnodup⟩ := hfresh
    exact h.replaceAuthorSlice hstrokes hstrokeIds hnoteIds hnodup rfl hone rfl rfl
  | removeAuthorSlice authorId =>
    obtain rfl : b = _ := hok
    exact h.removeAuthorSlice authorId
  | clearPiece =>
    obtain rfl : b = _ := hok
    exact empty pieceId ownerId

end PieceAnnotations.Tidy

namespace Mirrors

variable {pieceId ownerId user : String} {now : DateTime} {a : PieceAnnotations} {cloud : Cloud}

/-- A layer document is one of a layer. -/
theorem layer_of_doc (h : Mirrors pieceId ownerId a cloud) {uid : String} {data : Fields}
    (hdoc : cloud.doc (.layers pieceId uid) = some data) :
    ∃ l ∈ a.layers, l.ownerId = uid ∧ ∃ rev updatedAt, data = layerToFirestore l rev updatedAt := by
  by_cases hmem : uid ∈ a.layers.map (·.ownerId)
  · obtain ⟨l, hl, rfl⟩ := List.mem_map.mp hmem
    obtain ⟨rev, updatedAt, hlayer⟩ := h.layerDoc l hl
    exact ⟨l, hl, rfl, rev, updatedAt, Option.some.inj (hdoc.symm.trans hlayer)⟩
  · simp [h.noLayerDoc uid hmem] at hdoc

/-- A note document is one of a note. -/
theorem note_of_doc (h : Mirrors pieceId ownerId a cloud) {id : String} {data : Fields}
    (hdoc : cloud.doc (.notes pieceId id) = some data) :
    ∃ n ∈ a.audioNotes, n.id = id ∧ data = audioNoteToFirestore n := by
  by_cases hmem : id ∈ a.audioNotes.map (·.id)
  · obtain ⟨n, hn, rfl⟩ := List.mem_map.mp hmem
    exact ⟨n, hn, rfl, Option.some.inj (hdoc.symm.trans (h.noteDoc n hn))⟩
  · simp [h.noNoteDoc id hmem] at hdoc

/-- The only note of an id. -/
theorem note_eq (h : Mirrors pieceId ownerId a cloud) {n m : AudioNote} (hn : n ∈ a.audioNotes)
    (hm : m ∈ a.audioNotes) (hid : n.id = m.id) : n = m :=
  List.inj_on_of_nodup_map h.tidy.noteIds hn hm hid

end Mirrors

/-! ## Reading the documents -/

namespace Firestore

/-- Rewriting a layer document of one's own. -/
theorem rewriteLayer_eq (now : DateTime) (pieceId : String) {layer : InkLayer} (rev : Int)
    (updatedAt : DateTime) (change : List InkStroke → List InkStroke) :
    rewriteLayer now (.layers pieceId layer.ownerId) (layerToFirestore layer rev updatedAt) change =
      .commit [.set (.layers pieceId layer.ownerId)
        (layerToFirestore { layer with strokes := change layer.strokes } (rev + 1) now)] := by
  simp only [rewriteLayer, DocPath.id, layerFromFirestore_layerToFirestore,
    nextRev_layerToFirestore]
  rfl

theorem strokeHolder_eq {strokeId user : String} {docs : List (DocPath × Fields)}
    (h : ∀ entry ∈ docs, (strokesFromLayer entry.2).isSome = true) :
    strokeHolder user strokeId docs = match firstHolding strokeId docs with
      | none => .fail (.stateError s!"Unknown stroke: {strokeId}")
      | some (path, stroke) =>
        if stroke.authorId ≠ user then
          .fail (.ownershipViolation strokeId (some "not the stroke author"))
        else .done path := by
  induction docs with
  | nil => rfl
  | cons entry docs ih =>
    obtain ⟨strokes, hstrokes⟩ := Option.isSome_iff_exists.mp (h entry (by simp))
    have hrest := ih fun e he => h e (List.mem_cons_of_mem _ he)
    rw [strokeHolder, hstrokes, Program.orFail_some, Program.done_bind]
    cases hfind : strokes.find? fun s => s.id == strokeId with
    | none =>
      rw [hrest]
      simp [firstHolding, hstrokes, hfind]
    | some stroke => simp [firstHolding, hstrokes, hfind]

/-- The documents of a query deleted; an empty result is not committed. -/
theorem exec_deleteAll (query : Query) (cloud : Cloud) :
    ∃ cloud', (deleteAll query).exec Operation.perform cloud = (.ok (), cloud') ∧
      ∀ path, cloud'.doc path =
        if (cloud.doc path).any (query.selects path) then none else cloud.doc path := by
  obtain ⟨cloud', hcommit, hdoc⟩ := cloud.commit_deletes ((cloud.list query).map (·.1))
  have hpath : ∀ path, path ∈ (cloud.list query).map (·.1) ↔
      (cloud.doc path).any (query.selects path) = true := by
    intro path
    rw [List.mem_map]
    constructor
    · intro ⟨⟨path', fields⟩, hentry, heq⟩
      obtain rfl : path' = path := heq
      obtain ⟨hdoc, hselects⟩ := Cloud.mem_list.mp hentry
      simp [hdoc, hselects]
    · intro hany
      cases hdoc : cloud.doc path with
      | none => simp [hdoc] at hany
      | some fields =>
        rw [hdoc, Option.any_some] at hany
        exact ⟨(path, fields), Cloud.mem_list.mpr ⟨hdoc, hany⟩, rfl⟩
  refine ⟨cloud', ?_, fun path => ?_⟩
  · rw [deleteAll, Program.exec_bind_of_ok (exec_listDocs _ _)]
    rw [List.map_map] at hcommit
    split_ifs with hempty
    · rw [List.isEmpty_iff.mp hempty] at hcommit
      rw [Except.ok.inj hcommit, Program.exec_done]
    · rw [exec_commit]
      exact Cloud.settle_ok hcommit
  · rw [hdoc]
    exact if_congr (hpath path) rfl rfl

end Firestore

/-! ## The calls -/

namespace Mirrors

open Firestore

variable {pieceId ownerId user : String} {now : DateTime} {a b : PieceAnnotations} {cloud : Cloud}

/-- A layer replaced on both sides. -/
theorem setLayer (h : Mirrors pieceId ownerId a cloud) (htidy : b.Tidy pieceId ownerId)
    (hnotes : b.audioNotes = a.audioNotes) (layer : InkLayer)
    (hmem : ∀ l, l ∈ b.layers ↔ (l ∈ a.layers ∧ l.ownerId ≠ layer.ownerId) ∨ l = layer)
    (rev : Int) (updatedAt : DateTime) : Mirrors pieceId ownerId b
      (cloud.store (.layers pieceId layer.ownerId)
        (some (layerToFirestore layer rev updatedAt))) where
  tidy := htidy
  layerDoc l hl := by
    obtain ⟨hl, hne⟩ | rfl := (hmem l).mp hl
    · rw [cloud.doc_store_of_ne (by simpa using hne)]
      exact h.layerDoc l hl
    · exact ⟨rev, updatedAt, cloud.doc_store_self _ _⟩
  noLayerDoc uid huid := by
    have hne : uid ≠ layer.ownerId := by
      rintro rfl
      exact huid (List.mem_map_of_mem ((hmem layer).mpr (.inr rfl)))
    rw [cloud.doc_store_of_ne (by simpa using hne)]
    refine h.noLayerDoc uid fun hold => huid ?_
    obtain ⟨l, hl, rfl⟩ := List.mem_map.mp hold
    exact List.mem_map_of_mem ((hmem l).mpr (.inl ⟨hl, hne⟩))
  noteDoc n hn := by
    rw [cloud.doc_store_of_ne (by simp)]
    exact h.noteDoc n (hnotes ▸ hn)
  noNoteDoc id hid := by
    rw [cloud.doc_store_of_ne (by simp)]
    exact h.noNoteDoc id (hnotes ▸ hid)
  piece := by
    rw [cloud.doc_store_of_ne (by simp)]
    exact h.piece

/-- A note stored on both sides. -/
theorem setNote (h : Mirrors pieceId ownerId a cloud) (htidy : b.Tidy pieceId ownerId)
    (hlayers : b.layers = a.layers) (note : AudioNote)
    (hmem : ∀ n, n ∈ b.audioNotes ↔ (n ∈ a.audioNotes ∧ n.id ≠ note.id) ∨ n = note) :
    Mirrors pieceId ownerId b
      (cloud.store (.notes pieceId note.id) (some (audioNoteToFirestore note))) where
  tidy := htidy
  layerDoc l hl := by
    rw [cloud.doc_store_of_ne (by simp)]
    exact h.layerDoc l (hlayers ▸ hl)
  noLayerDoc uid huid := by
    rw [cloud.doc_store_of_ne (by simp)]
    exact h.noLayerDoc uid (hlayers ▸ huid)
  noteDoc n hn := by
    obtain ⟨hn, hne⟩ | rfl := (hmem n).mp hn
    · rw [cloud.doc_store_of_ne (by simpa using hne)]
      exact h.noteDoc n hn
    · exact cloud.doc_store_self _ _
  noNoteDoc id hid := by
    have hne : id ≠ note.id := by
      rintro rfl
      exact hid (List.mem_map_of_mem ((hmem note).mpr (.inr rfl)))
    rw [cloud.doc_store_of_ne (by simpa using hne)]
    refine h.noNoteDoc id fun hold => hid ?_
    obtain ⟨n, hn, rfl⟩ := List.mem_map.mp hold
    exact List.mem_map_of_mem ((hmem n).mpr (.inl ⟨hn, hne⟩))
  piece := by
    rw [cloud.doc_store_of_ne (by simp)]
    exact h.piece

theorem addStroke (h : Mirrors pieceId ownerId a cloud) {stroke : InkStroke}
    (hauthor : stroke.authorId = user)
    (htidy : (⟨pieceId, a.layers.filter (fun l => l.ownerId != stroke.authorId) ++
      [a.layerAdding (roleUnder ownerId user) stroke], a.audioNotes⟩ :
        PieceAnnotations).Tidy pieceId ownerId) :
    ∃ cloud', (Firestore.addStroke user now pieceId stroke).exec Operation.perform cloud =
        (.ok (), cloud') ∧
      Mirrors pieceId ownerId ⟨pieceId, a.layers.filter (fun l => l.ownerId != stroke.authorId) ++
        [a.layerAdding (roleUnder ownerId user) stroke], a.audioNotes⟩ cloud' := by
  have howner : (a.layerAdding (roleUnder ownerId user) stroke).ownerId = stroke.authorId :=
    a.ownerId_layerAdding stroke
  have hset := fun rev => h.setLayer htidy rfl (a.layerAdding (roleUnder ownerId user) stroke)
    (fun l => by rw [howner]; simp) rev now
  rw [howner] at hset
  rw [Firestore.addStroke, if_neg (not_not.mpr hauthor), exec_transaction]
  cases hfind : a.layers.find? fun l => l.ownerId == stroke.authorId with
  | none =>
    have hnone : cloud.doc (.layers pieceId stroke.authorId) = none := by
      refine h.noLayerDoc _ fun hmem => ?_
      obtain ⟨l, hl, howner⟩ := List.mem_map.mp hmem
      exact List.find?_eq_none.mp hfind l hl (beq_iff_eq.mpr howner)
    obtain ⟨fields, hpiece, hfield⟩ := h.piece
    have hrole : Firestore.roleFor (some fields) stroke.authorId = roleUnder ownerId user := by
      by_cases howns : user = ownerId
      · simp [Firestore.roleFor, hfield, roleUnder, hauthor, howns]
      · simp [Firestore.roleFor, hfield, roleUnder, hauthor, howns, Ne.symm howns]
    refine ⟨_, Cloud.settle_ok ?_, hset 1⟩
    simp only [Transaction.run, hnone, hpiece, hrole, PieceAnnotations.layerAdding, hfind,
      Cloud.commit_set]
  | some layer =>
    have hlayer := List.mem_of_find?_eq_some hfind
    have hsame : layer.ownerId = stroke.authorId := by
      have howner := List.find?_some hfind
      exact beq_iff_eq.mp howner
    obtain ⟨rev, updatedAt, hdoc⟩ := h.layerDoc layer hlayer
    refine ⟨_, Cloud.settle_ok ?_, hset (rev + 1)⟩
    rw [hsame] at hdoc
    simp only [Transaction.run, hdoc]
    rw [← hsame, rewriteLayer_eq, Transaction.run, Cloud.commit_set]
    simp only [PieceAnnotations.layerAdding, hfind]

theorem addAudioNote (h : Mirrors pieceId ownerId a cloud) {note : AudioNote}
    (hauthor : note.authorId = user) (hfresh : ∀ n ∈ a.audioNotes, n.id ≠ note.id)
    (htidy : (⟨pieceId, a.layers, a.audioNotes ++ [note]⟩ : PieceAnnotations).Tidy pieceId
      ownerId) :
    ∃ cloud', (Firestore.addAudioNote user pieceId note).exec Operation.perform cloud =
        (.ok (), cloud') ∧
      Mirrors pieceId ownerId ⟨pieceId, a.layers, a.audioNotes ++ [note]⟩ cloud' := by
  rw [Firestore.addAudioNote, if_neg (not_not.mpr hauthor), exec_commit]
  refine ⟨_, Cloud.settle_ok (Cloud.commit_set _ _ _), h.setNote htidy rfl note fun n => ?_⟩
  simp only [List.mem_append, List.mem_singleton]
  exact or_congr_left (iff_self_and.mpr (hfresh n))

/-- A note document with its `deletedAt` set is the document of the tombstone. -/
theorem tombstoned_doc (note : AudioNote) (now : DateTime) :
    Write.changed (audioNoteToFirestore note) [("deletedAt", .set (toTimestamp now))] =
      audioNoteToFirestore (note.tombstone now) := by
  simp only [Write.changed, List.foldl_cons, List.foldl_nil, Change.apply, audioNoteToFirestore,
    Assoc.ofList, Assoc.set_set]
  rfl

/-- A live note of that id is found on both sides. -/
theorem deleteAudioNote (h : Mirrors pieceId ownerId a cloud) {noteId : String} {note : AudioNote}
    (hfind : a.audioNotes.find? (fun n => n.id == noteId && !n.isTombstoned) = some note)
    (hauthor : note.authorId = user)
    (htidy : (⟨pieceId, a.layers, a.audioNotes.map fun n =>
      if n.id = noteId then n.tombstone now else n⟩ : PieceAnnotations).Tidy pieceId ownerId) :
    ∃ cloud', (Firestore.deleteAudioNote user now pieceId noteId).exec Operation.perform cloud =
        (.ok (), cloud') ∧
      Mirrors pieceId ownerId ⟨pieceId, a.layers, a.audioNotes.map fun n =>
        if n.id = noteId then n.tombstone now else n⟩ cloud' := by
  have hnote := List.mem_of_find?_eq_some hfind
  have hmatch := List.find?_some hfind
  simp only [Bool.and_eq_true, beq_iff_eq, Bool.not_eq_true'] at hmatch
  obtain ⟨rfl, hlive⟩ := hmatch
  have hdoc := h.noteDoc note hnote
  have hread : Fields.read (audioNoteToFirestore note) "authorId" = .string user := by
    rw [read_audioNoteToFirestore_authorId, hauthor]
  have hexec : (Firestore.deleteAudioNote user now pieceId note.id).exec Operation.perform cloud =
      (commit [.update (.notes pieceId note.id) [("deletedAt", .set (toTimestamp now))]]).exec
        Operation.perform cloud := by
    rw [Firestore.deleteAudioNote, Program.exec_bind_of_ok (exec_getDoc _ _), hdoc]
    simp [hlive, hread]
  have hcommit : cloud.commit [.update (.notes pieceId note.id)
      [("deletedAt", .set (toTimestamp now))]] = .ok (cloud.store (.notes pieceId note.id)
        (some (audioNoteToFirestore (note.tombstone now)))) := by
    refine Cloud.commit_singleton.mpr ⟨some (audioNoteToFirestore (note.tombstone now)), ?_, rfl⟩
    rw [Write.path, hdoc, Write.result, tombstoned_doc]
  rw [hexec, exec_commit]
  refine ⟨_, Cloud.settle_ok hcommit, h.setNote htidy rfl (note.tombstone now) fun n => ?_⟩
  rw [List.mem_map]
  constructor
  · intro ⟨m, hm, heq⟩
    by_cases hid : m.id = note.id
    · obtain rfl := h.note_eq hm hnote hid
      exact .inr (by simpa using heq.symm)
    · rw [if_neg hid] at heq
      exact .inl ⟨heq ▸ hm, heq ▸ hid⟩
  · intro hn
    obtain ⟨hn, hne⟩ | rfl := hn
    · exact ⟨n, hn, if_neg hne⟩
    · exact ⟨note, hnote, if_pos rfl⟩

/-- The documents of the piece's layers. -/
theorem mem_layers (h : Mirrors pieceId ownerId a cloud) {entry : DocPath × Fields} :
    entry ∈ cloud.list (.layersOf pieceId) ↔ ∃ l ∈ a.layers, ∃ rev updatedAt,
      cloud.doc (.layers pieceId l.ownerId) = some (layerToFirestore l rev updatedAt) ∧
        entry = (.layers pieceId l.ownerId, layerToFirestore l rev updatedAt) := by
  obtain ⟨path, data⟩ := entry
  rw [Cloud.mem_list]
  constructor
  · intro ⟨hdoc, hselects⟩
    cases path <;> simp only [Query.selects, Bool.false_eq_true, beq_iff_eq] at hselects
    subst hselects
    obtain ⟨l, hl, rfl, rev, updatedAt, rfl⟩ := h.layer_of_doc hdoc
    exact ⟨l, hl, rev, updatedAt, hdoc, rfl⟩
  · intro ⟨l, hl, rev, updatedAt, hdoc, heq⟩
    obtain ⟨rfl, rfl⟩ := Prod.mk.inj heq
    exact ⟨hdoc, by simp [Query.selects]⟩

/-- The documents of the piece's notes. -/
theorem mem_notes (h : Mirrors pieceId ownerId a cloud) {entry : DocPath × Fields} :
    entry ∈ cloud.list (.notesOf pieceId) ↔
      ∃ n ∈ a.audioNotes, entry = (.notes pieceId n.id, audioNoteToFirestore n) := by
  obtain ⟨path, data⟩ := entry
  rw [Cloud.mem_list]
  constructor
  · intro ⟨hdoc, hselects⟩
    cases path <;> simp only [Query.selects, Bool.false_eq_true, beq_iff_eq] at hselects
    subst hselects
    obtain ⟨n, hn, rfl, rfl⟩ := h.note_of_doc hdoc
    exact ⟨n, hn, rfl⟩
  · intro ⟨n, hn, heq⟩
    obtain ⟨rfl, rfl⟩ := Prod.mk.inj heq
    exact ⟨h.noteDoc n hn, by simp [Query.selects]⟩

/-- The documents of an author's notes. -/
theorem mem_notesBy (h : Mirrors pieceId ownerId a cloud) {authorId : String}
    {entry : DocPath × Fields} : entry ∈ cloud.list (.notesBy pieceId authorId) ↔
      ∃ n ∈ a.audioNotes, n.authorId = authorId ∧
        entry = (.notes pieceId n.id, audioNoteToFirestore n) := by
  have hauthor := read_audioNoteToFirestore_authorId
  obtain ⟨path, data⟩ := entry
  rw [Cloud.mem_list]
  constructor
  · intro ⟨hdoc, hselects⟩
    cases path <;> simp only [Query.selects, Bool.false_eq_true, Bool.and_eq_true, beq_iff_eq]
      at hselects
    obtain ⟨rfl, hby⟩ := hselects
    obtain ⟨n, hn, rfl, rfl⟩ := h.note_of_doc hdoc
    exact ⟨n, hn, by simpa [hauthor] using hby, rfl⟩
  · intro ⟨n, hn, hby, heq⟩
    obtain ⟨rfl, rfl⟩ := Prod.mk.inj heq
    exact ⟨h.noteDoc n hn, by simp [Query.selects, hauthor, hby]⟩

/-- Both sides find a stroke in the same layer. -/
theorem firstHolding_eq (h : Mirrors pieceId ownerId a cloud) (strokeId : String) :
    firstHolding strokeId (cloud.list (.layersOf pieceId)) =
      (a.layerHolding strokeId).bind fun layer =>
        (layer.strokes.find? fun s => s.id == strokeId).map fun stroke =>
          (.layers pieceId layer.ownerId, stroke) := by
  have hvalue : ∀ entry ∈ cloud.list (.layersOf pieceId), ∃ l ∈ a.layers,
      ((strokesFromLayer entry.2).bind fun strokes => strokes.find? fun s => s.id == strokeId).map
          (fun stroke => (entry.1, stroke)) =
        (l.strokes.find? fun s => s.id == strokeId).map fun stroke =>
          (DocPath.layers pieceId l.ownerId, stroke) := by
    intro entry hentry
    obtain ⟨l, hl, rev, updatedAt, -, rfl⟩ := h.mem_layers.mp hentry
    exact ⟨l, hl, by simp⟩
  cases hlayer : a.layerHolding strokeId with
  | none =>
    rw [Option.bind_none, firstHolding, List.findSome?_eq_none_iff]
    intro entry hentry
    obtain ⟨l, hl, heq⟩ := hvalue entry hentry
    rw [heq, Option.map_eq_none_iff, List.find?_eq_none]
    have hnone := List.find?_eq_none.mp hlayer l hl
    simpa using hnone
  | some layer =>
    have hmem := PieceAnnotations.mem_of_layerHolding hlayer
    have hholds : layer.strokes.any (fun s => s.id == strokeId) = true := by
      have hfound := List.find?_some hlayer
      exact hfound
    obtain ⟨s, hs, hid⟩ := List.any_eq_true.mp hholds
    obtain ⟨stroke, hstroke⟩ := Option.isSome_iff_exists.mp
      (List.find?_isSome.mpr ⟨s, hs, hid⟩ :
        (layer.strokes.find? fun s => s.id == strokeId).isSome = true)
    -- the stroke is in no other layer, so whichever document comes first is this layer's
    have hsome : (firstHolding strokeId (cloud.list (.layersOf pieceId))).isSome = true := by
      obtain ⟨rev, updatedAt, hdoc⟩ := h.layerDoc layer hmem
      rw [firstHolding, List.findSome?_isSome_iff]
      refine ⟨_, h.mem_layers.mpr ⟨layer, hmem, rev, updatedAt, hdoc, rfl⟩, ?_⟩
      simp [hstroke]
    obtain ⟨found, hfound⟩ := Option.isSome_iff_exists.mp hsome
    obtain ⟨entry, hentry, heq⟩ := List.exists_of_findSome?_eq_some hfound
    obtain ⟨l, hl, hvalue⟩ := hvalue entry hentry
    rw [hvalue, Option.map_eq_some_iff] at heq
    obtain ⟨t, ht, rfl⟩ := heq
    have hsame : t.id = s.id := by
      have htid := List.find?_some ht
      exact (beq_iff_eq.mp htid).trans (beq_iff_eq.mp hid).symm
    obtain rfl := h.tidy.strokeIds l hl layer hmem t (List.mem_of_find?_eq_some ht) s hs hsame
    rw [hfound, Option.bind_some, ht, Option.map_some]

/-- Every layer document of the piece can be read. -/
theorem strokes_isSome (h : Mirrors pieceId ownerId a cloud) :
    ∀ entry ∈ cloud.list (.layersOf pieceId), (strokesFromLayer entry.2).isSome = true := by
  intro entry hentry
  obtain ⟨l, -, rev, updatedAt, -, rfl⟩ := h.mem_layers.mp hentry
  simp

theorem eraseStroke (h : Mirrors pieceId ownerId a cloud) {strokeId : String} {layer : InkLayer}
    (hlayer : a.layerHolding strokeId = some layer)
    (hauthor : (layer.strokes.find? fun s => s.id == strokeId).map (·.authorId) = some user)
    (htidy : (⟨pieceId, a.layers.map fun l => if l.ownerId = layer.ownerId then
      { l with strokes := layer.strokes.filter fun s => s.id != strokeId } else l,
        a.audioNotes⟩ : PieceAnnotations).Tidy pieceId ownerId) :
    ∃ cloud', (Firestore.eraseStroke user now pieceId strokeId).exec Operation.perform cloud =
        (.ok (), cloud') ∧
      Mirrors pieceId ownerId ⟨pieceId, a.layers.map fun l => if l.ownerId = layer.ownerId then
        { l with strokes := layer.strokes.filter fun s => s.id != strokeId } else l,
          a.audioNotes⟩ cloud' := by
  have hmem := PieceAnnotations.mem_of_layerHolding hlayer
  obtain ⟨stroke, hstroke, hby⟩ := Option.map_eq_some_iff.mp hauthor
  obtain ⟨rev, updatedAt, hdoc⟩ := h.layerDoc layer hmem
  have hholder : strokeHolder user strokeId (cloud.list (.layersOf pieceId)) =
      .done (.layers pieceId layer.ownerId) := by
    rw [strokeHolder_eq h.strokes_isSome, h.firstHolding_eq, hlayer, Option.bind_some, hstroke,
      Option.map_some]
    simp [hby]
  rw [Firestore.eraseStroke, Program.exec_bind_of_ok (exec_listDocs _ _), hholder,
    Program.done_bind, exec_transaction]
  refine ⟨_, Cloud.settle_ok ?_, h.setLayer htidy rfl { layer with
    strokes := layer.strokes.filter fun s => s.id != strokeId }
      (fun l => h.tidy.oneLayerEach.mem_map_layer hmem _) (rev + 1) now⟩
  simp only [Transaction.run, hdoc]
  rw [rewriteLayer_eq, Transaction.run, Cloud.commit_set]

/-- Notes that are dropped on both sides. -/
theorem doc_commit_deleteNotes (h : Mirrors pieceId ownerId a cloud) (authorId : String)
    (from_ : Cloud) : ∃ cloud', from_.commit ((cloud.list (.notesBy pieceId authorId)).map
        fun entry => .delete entry.1) = .ok cloud' ∧
      (∀ id, cloud'.doc (.notes pieceId id) =
        if ∃ n ∈ a.audioNotes, n.authorId = authorId ∧ n.id = id then none
        else from_.doc (.notes pieceId id)) ∧
      ∀ path, (∀ id, path ≠ .notes pieceId id) → cloud'.doc path = from_.doc path := by
  obtain ⟨cloud', hcommit, hdoc⟩ := from_.commit_deletes
    ((cloud.list (.notesBy pieceId authorId)).map (·.1))
  rw [List.map_map] at hcommit
  have hpath : ∀ path, path ∈ (cloud.list (.notesBy pieceId authorId)).map (·.1) ↔
      ∃ n ∈ a.audioNotes, n.authorId = authorId ∧ path = .notes pieceId n.id := by
    intro path
    rw [List.mem_map]
    constructor
    · intro ⟨entry, hentry, heq⟩
      obtain ⟨n, hn, hby, rfl⟩ := h.mem_notesBy.mp hentry
      exact ⟨n, hn, hby, heq.symm⟩
    · intro ⟨n, hn, hby, heq⟩
      exact ⟨_, h.mem_notesBy.mpr ⟨n, hn, hby, rfl⟩, heq.symm⟩
  refine ⟨cloud', hcommit, fun id => ?_, fun path hnot => ?_⟩
  · rw [hdoc]
    refine if_congr ?_ rfl rfl
    rw [hpath]
    simp [eq_comm]
  · rw [hdoc, if_neg]
    rw [hpath]
    intro ⟨n, _, _, heq⟩
    exact hnot n.id heq

/-- The documents after a slice has been written: the layer is set, the author's notes are deleted,
and the new ones are set. -/
structure WritesSlice (pieceId : String) (a : PieceAnnotations) (layer : InkLayer)
    (audioNotes : List AudioNote) (cloud cloud' : Cloud) : Prop where
  layerDoc : ∃ rev updatedAt, cloud'.doc (.layers pieceId layer.ownerId) =
    some (layerToFirestore layer rev updatedAt)
  otherLayers : ∀ uid, uid ≠ layer.ownerId →
    cloud'.doc (.layers pieceId uid) = cloud.doc (.layers pieceId uid)
  noteDoc : ∀ n ∈ audioNotes, cloud'.doc (.notes pieceId n.id) = some (audioNoteToFirestore n)
  otherNotes : ∀ id, id ∉ audioNotes.map (·.id) → cloud'.doc (.notes pieceId id) =
    if ∃ n ∈ a.audioNotes, n.authorId = layer.ownerId ∧ n.id = id then none
    else cloud.doc (.notes pieceId id)
  piece : cloud'.doc (.pieces pieceId) = cloud.doc (.pieces pieceId)

/-- The batch of a slice writes it. -/
theorem writesSlice_commit (h : Mirrors pieceId ownerId a cloud) (layer : InkLayer)
    (now : DateTime) {audioNotes : List AudioNote} (hnodup : (audioNotes.map (·.id)).Nodup) (rev : Int) :
    ∃ cloud', cloud.commit (.set (.layers pieceId layer.ownerId) (layerToFirestore layer rev now) ::
        ((cloud.list (.notesBy pieceId layer.ownerId)).map (fun entry => .delete entry.1) ++
          audioNotes.map fun note => .set (.notes pieceId note.id) (audioNoteToFirestore note))) =
        .ok cloud' ∧ WritesSlice pieceId a layer audioNotes cloud cloud' := by
  obtain ⟨layerSet, hlayerSet⟩ : ∃ layerSet, layerSet = cloud.store (.layers pieceId layer.ownerId)
      (some (layerToFirestore layer rev now)) := ⟨_, rfl⟩
  obtain ⟨cleared, hcleared, hclearedNote, hclearedOther⟩ :=
    h.doc_commit_deleteNotes layer.ownerId layerSet
  have hpaths : ((audioNotes.map fun n => (DocPath.notes pieceId n.id, audioNoteToFirestore n)).map
      (·.1)).Nodup := by
    have hpaths := hnodup.map fun _ _ (heq : DocPath.notes pieceId _ = .notes pieceId _) => by
      simpa using heq
    rwa [List.map_map] at hpaths ⊢
  obtain ⟨cloud', hcommit, hset, hkept⟩ := cleared.commit_sets hpaths
  have hkept : ∀ path, (∀ n ∈ audioNotes, path ≠ .notes pieceId n.id) →
      cloud'.doc path = cleared.doc path := by
    intro path hnot
    apply hkept
    simpa [eq_comm] using hnot
  have hlayers : ∀ uid, cloud'.doc (.layers pieceId uid) = layerSet.doc (.layers pieceId uid) :=
    fun uid => (hkept _ (by simp)).trans (hclearedOther _ (by simp))
  refine ⟨cloud', ?_, ⟨rev, now, ?_⟩, fun uid hne => ?_, fun n hn => ?_, fun id hid => ?_, ?_⟩
  · have hresult : Write.result (.set (.layers pieceId layer.ownerId)
        (layerToFirestore layer rev now)) (cloud.doc (.layers pieceId layer.ownerId)) =
          .ok (some (layerToFirestore layer rev now)) := rfl
    rw [Cloud.commit_cons_of_ok hresult, Cloud.commit_append, Write.path, ← hlayerSet, hcleared]
    simpa only [List.map_map, Function.comp_def, Except.bind] using hcommit
  · rw [hlayers, hlayerSet, Cloud.doc_store_self]
  · rw [hlayers, hlayerSet, cloud.doc_store_of_ne (by simpa using hne)]
  · exact hset _ _ (List.mem_map.mpr ⟨n, hn, rfl⟩)
  · have hold : ∀ n ∈ audioNotes, DocPath.notes pieceId id ≠ .notes pieceId n.id := by
      intro n hn heq
      exact hid (List.mem_map.mpr ⟨n, hn, by simpa using heq.symm⟩)
    rw [hkept _ hold, hclearedNote, hlayerSet, cloud.doc_store_of_ne (by simp)]
  · rw [hkept _ (by simp), hclearedOther _ (by simp), hlayerSet, cloud.doc_store_of_ne (by simp)]

/-- Documents to which a slice has been written hold the annotations with the slice. -/
theorem of_writesSlice (h : Mirrors pieceId ownerId a cloud) {layer : InkLayer}
    {audioNotes : List AudioNote} {cloud' : Cloud}
    (hwrites : WritesSlice pieceId a layer audioNotes cloud cloud')
    (htidy : ({ a with pieceId := pieceId }.replaceSlice layer audioNotes : PieceAnnotations).Tidy
      pieceId ownerId) :
    Mirrors pieceId ownerId ({ a with pieceId := pieceId }.replaceSlice layer audioNotes) cloud' := by
  refine ⟨htidy, fun l hl => ?_, fun uid huid => ?_, fun n hn => ?_, fun id hid => ?_, ?_⟩
  · obtain hl | hl := List.mem_append.mp hl
    · obtain ⟨hl, hne⟩ := List.mem_filter.mp hl
      rw [hwrites.otherLayers _ (by simpa using hne)]
      exact h.layerDoc l hl
    · rw [List.mem_singleton.mp hl]
      exact hwrites.layerDoc
  · have hne : uid ≠ layer.ownerId := by
      rintro rfl
      simp [PieceAnnotations.replaceSlice] at huid
    rw [hwrites.otherLayers uid hne]
    refine h.noLayerDoc uid fun hold => huid ?_
    obtain ⟨l, hl, rfl⟩ := List.mem_map.mp hold
    exact List.mem_map_of_mem (List.mem_append_left _ (List.mem_filter.mpr
      ⟨hl, by simpa using hne⟩))
  · have hapart := htidy.noteIds
    simp only [PieceAnnotations.replaceSlice, List.map_append] at hapart
    have hapart := (List.nodup_append.mp hapart).2.2
    obtain hn | hn := List.mem_append.mp hn
    · have hold : n.id ∉ audioNotes.map (·.id) :=
        fun hid => hapart n.id (List.mem_map_of_mem hn) n.id hid rfl
      obtain ⟨hn, hne⟩ := List.mem_filter.mp hn
      rw [hwrites.otherNotes _ hold, if_neg]
      · exact h.noteDoc n hn
      · rintro ⟨m, hm, hby, hid⟩
        obtain rfl := h.note_eq hm hn hid
        exact absurd hby (by simpa using hne)
    · exact hwrites.noteDoc n hn
  · simp only [PieceAnnotations.replaceSlice, List.map_append, List.mem_append, not_or] at hid
    rw [hwrites.otherNotes id hid.2]
    split_ifs with hby
    · rfl
    · refine h.noNoteDoc id fun hmem => ?_
      obtain ⟨m, hm, rfl⟩ := List.mem_map.mp hmem
      refine hid.1 (List.mem_map_of_mem (List.mem_filter.mpr ⟨hm, ?_⟩))
      have hne : m.authorId ≠ layer.ownerId := fun heq => hby ⟨m, hm, heq, rfl⟩
      simpa using hne
  · rw [hwrites.piece]
    exact h.piece

theorem replaceAuthorSlice (h : Mirrors pieceId ownerId a cloud) {authorId : String}
    {role : PieceRole} {strokes : List InkStroke} {audioNotes : List AudioNote}
    (hnodup : (audioNotes.map (·.id)).Nodup)
    (htidy : (({ a with pieceId := pieceId }.replaceSlice ⟨authorId, role, strokes, none⟩
      audioNotes) : PieceAnnotations).Tidy pieceId ownerId) :
    ∃ cloud', (Firestore.replaceAuthorSlice now pieceId authorId role strokes
        audioNotes).exec Operation.perform cloud = (.ok (), cloud') ∧
      Mirrors pieceId ownerId ({ a with pieceId := pieceId }.replaceSlice
        ⟨authorId, role, strokes, none⟩ audioNotes) cloud' := by
  obtain ⟨rev, hrev⟩ : ∃ rev, nextRev (cloud.doc (.layers pieceId authorId)) = some rev := by
    cases hdoc : cloud.doc (.layers pieceId authorId) with
    | none => exact ⟨1, rfl⟩
    | some data =>
      obtain ⟨l, -, -, rev, updatedAt, rfl⟩ := h.layer_of_doc hdoc
      exact ⟨rev + 1, nextRev_layerToFirestore l rev updatedAt⟩
  obtain ⟨cloud', hcommit, hwrites⟩ := h.writesSlice_commit ⟨authorId, role, strokes, none⟩ now
    hnodup rev
  refine ⟨cloud', ?_, h.of_writesSlice hwrites htidy⟩
  rw [Firestore.replaceAuthorSlice, Program.exec_bind_of_ok (exec_getDoc _ _),
    Program.exec_bind_of_ok (exec_listDocs _ _), hrev, Program.orFail_some, Program.done_bind,
    exec_commit]
  exact Cloud.settle_ok hcommit

theorem removeAuthorSlice (h : Mirrors pieceId ownerId a cloud) {authorId : String}
    (htidy : (⟨pieceId, a.layers.filter (fun l => l.ownerId != authorId),
      a.audioNotes.filter fun n => n.authorId != authorId⟩ : PieceAnnotations).Tidy pieceId
        ownerId) :
    ∃ cloud', (Firestore.removeAuthorSlice pieceId authorId).exec Operation.perform cloud =
        (.ok (), cloud') ∧
      Mirrors pieceId ownerId ⟨pieceId, a.layers.filter (fun l => l.ownerId != authorId),
        a.audioNotes.filter fun n => n.authorId != authorId⟩ cloud' := by
  obtain ⟨cloud', hcommit, hnote, hother⟩ :=
    h.doc_commit_deleteNotes authorId (cloud.store (.layers pieceId authorId) none)
  have hlayers : ∀ uid, cloud'.doc (.layers pieceId uid) =
      if uid = authorId then none else cloud.doc (.layers pieceId uid) := by
    intro uid
    rw [hother _ (by simp), Cloud.doc_store]
    simp
  refine ⟨cloud', ?_, htidy, fun l hl => ?_, fun uid huid => ?_, fun n hn => ?_, fun id hid => ?_,
    ?_⟩
  · rw [Firestore.removeAuthorSlice, Program.exec_bind_of_ok (exec_listDocs _ _), exec_commit]
    apply Cloud.settle_ok
    have hresult : Write.result (.delete (.layers pieceId authorId))
        (cloud.doc (.layers pieceId authorId)) = .ok none := rfl
    rw [Cloud.commit_cons_of_ok hresult]
    exact hcommit
  · obtain ⟨hl, hne⟩ := List.mem_filter.mp hl
    rw [hlayers, if_neg (by simpa using hne)]
    exact h.layerDoc l hl
  · rw [hlayers]
    split_ifs with hsame
    · rfl
    · refine h.noLayerDoc uid fun hold => huid ?_
      obtain ⟨l, hl, rfl⟩ := List.mem_map.mp hold
      exact List.mem_map_of_mem (List.mem_filter.mpr ⟨hl, by simpa using hsame⟩)
  · obtain ⟨hn, hne⟩ := List.mem_filter.mp hn
    rw [hnote, if_neg, cloud.doc_store_of_ne (by simp)]
    · exact h.noteDoc n hn
    · intro ⟨m, hm, hby, hid⟩
      obtain rfl := h.note_eq hm hn hid
      exact absurd hby (by simpa using hne)
  · rw [hnote]
    split_ifs with hby
    · rfl
    · rw [cloud.doc_store_of_ne (by simp)]
      refine h.noNoteDoc id fun hmem => hid ?_
      obtain ⟨m, hm, rfl⟩ := List.mem_map.mp hmem
      have hne : m.authorId ≠ authorId := fun heq => hby ⟨m, hm, heq, rfl⟩
      exact List.mem_map_of_mem (List.mem_filter.mpr ⟨hm, by simpa using hne⟩)
  · obtain ⟨fields, hpiece, hfield⟩ := h.piece
    refine ⟨fields, ?_, hfield⟩
    rw [hother _ (by simp), cloud.doc_store_of_ne (by simp), hpiece]

theorem clearPiece (h : Mirrors pieceId ownerId a cloud) :
    ∃ cloud', (Firestore.clearPiece pieceId).exec Operation.perform cloud = (.ok (), cloud') ∧
      Mirrors pieceId ownerId (.empty pieceId) cloud' := by
  obtain ⟨noLayers, hlayers, hlayerDoc⟩ := exec_deleteAll (.layersOf pieceId) cloud
  obtain ⟨cloud', hnotes, hnoteDoc⟩ := exec_deleteAll (.notesOf pieceId) noLayers
  have hlayer : ∀ uid, cloud'.doc (.layers pieceId uid) = none := by
    intro uid
    rw [hnoteDoc, hlayerDoc]
    cases hdoc : cloud.doc (.layers pieceId uid) <;> simp [Query.selects]
  have hnote : ∀ id, cloud'.doc (.notes pieceId id) = none := by
    intro id
    rw [hnoteDoc]
    cases hdoc : noLayers.doc (.notes pieceId id) <;> simp [Query.selects]
  have htidy : (PieceAnnotations.empty pieceId).Tidy pieceId ownerId :=
    PieceAnnotations.Tidy.empty pieceId ownerId
  refine ⟨cloud', ?_, htidy, by simp [PieceAnnotations.empty], fun uid _ => hlayer uid,
    by simp [PieceAnnotations.empty], fun id _ => hnote id, ?_⟩
  · rw [Firestore.clearPiece, Program.exec_bind_of_ok hlayers, hnotes]
  · obtain ⟨fields, hpiece, hfield⟩ := h.piece
    refine ⟨fields, ?_, hfield⟩
    rw [hnoteDoc, hlayerDoc, hpiece]
    simp [Query.selects]

/-- A stroke that neither side finds, or that is somebody else's. -/
theorem eraseStroke_refused (h : Mirrors pieceId ownerId a cloud) (user : String)
    (now : DateTime) (strokeId : String) :
    (a.layerHolding strokeId = none →
      (Firestore.eraseStroke user now pieceId strokeId).exec Operation.perform cloud =
        (.error (.stateError s!"Unknown stroke: {strokeId}"), cloud)) ∧
    ∀ layer, a.layerHolding strokeId = some layer →
      (layer.strokes.find? fun s => s.id == strokeId).map (·.authorId) ≠ some user →
        (Firestore.eraseStroke user now pieceId strokeId).exec Operation.perform cloud =
          (.error (.ownershipViolation strokeId (some "not the stroke author")), cloud) := by
  rw [Firestore.eraseStroke, Program.exec_bind_of_ok (exec_listDocs _ _),
    strokeHolder_eq h.strokes_isSome, h.firstHolding_eq]
  refine ⟨fun hnone => by rw [hnone]; rfl, fun layer hlayer hother => ?_⟩
  have hholds : layer.strokes.any (fun s => s.id == strokeId) = true := by
    have hfound := List.find?_some hlayer
    exact hfound
  cases hstroke : layer.strokes.find? fun s => s.id == strokeId with
  | none =>
    obtain ⟨s, hs, hid⟩ := List.any_eq_true.mp hholds
    exact absurd hid (List.find?_eq_none.mp hstroke s hs)
  | some stroke =>
    rw [hstroke, Option.map_some] at hother
    rw [hlayer, Option.bind_some, hstroke, Option.map_some]
    simp only
    rw [if_pos fun heq => hother (congrArg some heq)]
    rfl

/-- A note that neither side finds alive, or that is somebody else's. -/
theorem deleteAudioNote_refused (h : Mirrors pieceId ownerId a cloud) (user : String)
    (now : DateTime) (noteId : String) :
    (a.audioNotes.find? (fun n => n.id == noteId && !n.isTombstoned) = none →
      (Firestore.deleteAudioNote user now pieceId noteId).exec Operation.perform cloud =
        (.error (.stateError s!"Unknown audio note: {noteId}"), cloud)) ∧
    ∀ note, a.audioNotes.find? (fun n => n.id == noteId && !n.isTombstoned) = some note →
      note.authorId ≠ user →
        (Firestore.deleteAudioNote user now pieceId noteId).exec Operation.perform cloud =
          (.error (.ownershipViolation noteId (some "not the note author")), cloud) := by
  rw [Firestore.deleteAudioNote, Program.exec_bind_of_ok (exec_getDoc _ _)]
  constructor
  · intro hnone
    cases hdoc : cloud.doc (.notes pieceId noteId) with
    | none => rfl
    | some data =>
      obtain ⟨n, hn, hid, rfl⟩ := h.note_of_doc hdoc
      have hdead := List.find?_eq_none.mp hnone n hn
      have hdead : n.isTombstoned = true := by simpa [hid] using hdead
      simp [hdead]
  · intro note hfind hother
    have hmatch := List.find?_some hfind
    simp only [Bool.and_eq_true, beq_iff_eq, Bool.not_eq_true'] at hmatch
    obtain ⟨rfl, hlive⟩ := hmatch
    rw [h.noteDoc note (List.mem_of_find?_eq_some hfind)]
    simp [hlive, read_audioNoteToFirestore_authorId, hother]

/-- A call ends the same way on both sides and keeps them related. -/
theorem perform (h : Mirrors pieceId ownerId a cloud) (user : String) (now : DateTime)
    {call : AnnotationCall} (hfresh : call.FreshIds a) (hformed : call.WellFormed ownerId) :
    match call.written pieceId user now (roleUnder ownerId user) a with
    | .error e => ∃ e', (call.performCloud user now pieceId).exec Operation.perform cloud =
        (.error e', cloud) ∧ SameOutcome (.error e) (.error e')
    | .ok b => ∃ cloud', (call.performCloud user now pieceId).exec Operation.perform cloud =
        (.ok (), cloud') ∧ Mirrors pieceId ownerId b cloud' := by
  have htidy : ∀ b, call.written pieceId user now (roleUnder ownerId user) a = .ok b →
      b.Tidy pieceId ownerId := fun b => h.tidy.written hfresh hformed
  cases call with
  | addStroke stroke =>
    simp only [AnnotationCall.written, AnnotationCall.performCloud] at htidy ⊢
    by_cases hauthor : stroke.authorId = user
    · rw [if_neg (not_not.mpr hauthor)] at htidy ⊢
      exact h.addStroke hauthor (htidy _ rfl)
    · rw [if_pos hauthor, Firestore.addStroke, if_pos hauthor]
      exact ⟨_, rfl, rfl, rfl⟩
  | eraseStroke strokeId =>
    simp only [AnnotationCall.written, AnnotationCall.performCloud] at htidy ⊢
    obtain ⟨hunknown, hother⟩ := h.eraseStroke_refused user now strokeId
    cases hlayer : a.layerHolding strokeId with
    | none => exact ⟨_, hunknown hlayer, rfl⟩
    | some layer =>
      simp only [hlayer] at htidy ⊢
      by_cases hauthor : (layer.strokes.find? fun s => s.id == strokeId).map (·.authorId) =
          some user
      · rw [if_neg (not_not.mpr hauthor)] at htidy ⊢
        exact h.eraseStroke hlayer hauthor (htidy _ rfl)
      · rw [if_pos hauthor]
        exact ⟨_, hother layer hlayer hauthor, rfl, rfl⟩
  | addAudioNote note =>
    simp only [AnnotationCall.written, AnnotationCall.performCloud] at htidy ⊢
    by_cases hauthor : note.authorId = user
    · rw [if_neg (not_not.mpr hauthor)] at htidy ⊢
      exact h.addAudioNote hauthor hfresh (htidy _ rfl)
    · rw [if_pos hauthor, Firestore.addAudioNote, if_pos hauthor]
      exact ⟨_, rfl, rfl, rfl⟩
  | deleteAudioNote noteId =>
    simp only [AnnotationCall.written, AnnotationCall.performCloud] at htidy ⊢
    obtain ⟨hunknown, hother⟩ := h.deleteAudioNote_refused user now noteId
    cases hnote : a.audioNotes.find? fun n => n.id == noteId && !n.isTombstoned with
    | none => exact ⟨_, hunknown hnote, rfl⟩
    | some note =>
      simp only [hnote] at htidy ⊢
      by_cases hauthor : note.authorId = user
      · rw [if_neg (not_not.mpr hauthor)] at htidy ⊢
        exact h.deleteAudioNote hnote hauthor (htidy _ rfl)
      · rw [if_pos hauthor]
        exact ⟨_, hother note hnote hauthor, rfl, rfl⟩
  | replaceAuthorSlice authorId role strokes audioNotes =>
    exact h.replaceAuthorSlice hfresh.2.2 (htidy _ rfl)
  | removeAuthorSlice authorId => exact h.removeAuthorSlice (htidy _ rfl)
  | clearPiece => exact h.clearPiece

end Mirrors

end Duet
