import Duet.Cloud.Backend

/-!
# Documents and the texts of their paths

Firestore knows a document by a text, the segments of its path with slashes in between. The functions
put ids into such texts: an id with a slash in it would name a document somewhere else. Where nothing
but segments is put in, a text is the path of one document.

## Main definitions

* `DocPath.text` — the text of a path.
* `Operation.addresses` — the documents and collections that an operation names.
* `Backend.AddressesPlain` — a step in which every id that is put into a path is a segment.

## Main results

* `DocPath.eq_of_text_eq` — paths of segments with the same text are the same.
* `Backend.plain_of_run` — what is stored has a path of segments.
-/

namespace Duet

open Lib Program

/-- What can be a segment of a path. -/
def IsSegment (segment : String) : Prop := segment ≠ "" ∧ '/' ∉ segment.toList

instance (segment : String) : Decidable (IsSegment segment) :=
  inferInstanceAs (Decidable (segment ≠ "" ∧ '/' ∉ segment.toList))

/-- Every part of the path is a segment. -/
def Plain (segments : List String) : Prop := ∀ segment ∈ segments, IsSegment segment

instance (segments : List String) : Decidable (Plain segments) :=
  inferInstanceAs (Decidable (∀ segment ∈ segments, IsSegment segment))

/-! ## Texts -/

namespace DocPath

def text (path : DocPath) : String := "/".intercalate path.segments

theorem segments_injective {p q : DocPath} (h : p.segments = q.segments) : p = q := by
  cases p <;> cases q <;> simp_all [segments]

theorem segments_ne_nil (path : DocPath) : path.segments ≠ [] := by
  cases path <;> simp [segments]

/-- The segments of a path, taken from its text. -/
theorem splitOn_text {path : DocPath} (h : Plain path.segments) :
    path.text.toList.splitOn '/' = path.segments.map String.toList := by
  rw [text, String.toList_intercalate]
  refine List.splitOn_intercalate '/' ?_ (by simpa using path.segments_ne_nil)
  intro segment hsegment
  obtain ⟨segment, hmem, rfl⟩ := List.mem_map.mp hsegment
  exact (h segment hmem).2

theorem eq_of_text_eq {p q : DocPath} (hp : Plain p.segments) (hq : Plain q.segments)
    (h : p.text = q.text) : p = q := by
  have hsegments : p.segments.map String.toList = q.segments.map String.toList := by
    rw [← splitOn_text hp, ← splitOn_text hq, h]
  exact segments_injective (List.map_injective_iff.mpr (fun _ _ => String.toList_injective) hsegments)

end DocPath

/-! ## What operations name -/

/-- The path of the collection that a query is for, or the id of a collection group. -/
def Query.segments : Query → List String
  | directoryOf _ => ["usersByEmail"]
  | inboxOf uid => ["userInbox", uid, "messages"]
  | piecesOf _ => ["pieces"]
  | layersOf pieceId => ["pieces", pieceId, "layers"]
  | notesOf pieceId | notesBy pieceId _ => ["pieces", pieceId, "notes"]
  | deletedUntil _ => ["notes"]
  | descendantsOf pieceId => ["pieces", pieceId]

/-- The documents that a transaction reads and writes. -/
def Transaction.paths (cloud : Cloud) : Transaction → List DocPath
  | commit writes => writes.map Write.path
  | abort _ => []
  | get path k => path :: (k (cloud.doc path)).paths cloud

/-- The documents and collections that an operation names. -/
def Operation.addresses (cloud : Cloud) : Operation → List (List String)
  | .get path => [path.segments]
  | .list query => [query.segments]
  | .commit writes => writes.map (·.path.segments)
  | .transaction body => (body.paths cloud).map DocPath.segments

/-- The operation names nothing but paths of segments. -/
def Operation.AddressesPlain (cloud : Cloud) (op : Operation) : Prop :=
  ∀ address ∈ op.addresses cloud, Plain address

/-- What is stored has a path of segments. -/
def Cloud.Plain (cloud : Cloud) : Prop :=
  ∀ path fields, cloud.doc path = some fields → Duet.Plain path.segments

section

variable {cloud cloud' : Cloud} {path : DocPath}

theorem Cloud.plain_empty : Cloud.empty.Plain := nofun

theorem Transaction.doc_run_of_notMem {body : Transaction} (hpath : path ∉ body.paths cloud)
    (hok : body.run cloud = .ok cloud') : cloud'.doc path = cloud.doc path := by
  induction body with
  | commit writes =>
    have hwrites : ∀ write ∈ writes, write.path ≠ path := fun write hwrite heq =>
      hpath (List.mem_map.mpr ⟨write, hwrite, heq⟩)
    exact @Cloud.doc_commit_of_not (· ≠ path) _ _ _ _ hwrites (fun hne => hne rfl) hok
  | abort failure => cases hok
  | get path' k ih => exact ih _ (fun h => hpath (List.mem_cons_of_mem _ h)) hok

/-- An operation leaves the documents alone that it does not name. -/
theorem Operation.doc_perform_of_notMem {op : Operation}
    (hpath : path.segments ∉ op.addresses cloud) : (op.perform cloud).2.doc path = cloud.doc path := by
  cases op with
  | get path' => rfl
  | list query => rfl
  | commit writes =>
    refine Cloud.doc_settle fun cloud' hok => ?_
    have hwrites : ∀ write ∈ writes, write.path ≠ path := fun write hwrite heq =>
      hpath (List.mem_map.mpr ⟨write, hwrite, congrArg _ heq⟩)
    exact @Cloud.doc_commit_of_not (· ≠ path) _ _ _ _ hwrites (fun hne => hne rfl) hok
  | transaction body =>
    refine Cloud.doc_settle fun cloud' hok => Transaction.doc_run_of_notMem (fun hmem => ?_) hok
    exact hpath (List.mem_map_of_mem hmem)

theorem Cloud.Plain.perform {op : Operation} (h : cloud.Plain) (hop : op.AddressesPlain cloud) :
    (op.perform cloud).2.Plain := by
  intro path fields hdoc
  by_cases hmem : path.segments ∈ op.addresses cloud
  · exact hop _ hmem
  · exact h path fields ((Operation.doc_perform_of_notMem hmem).symm.trans hdoc)

end

/-! ## Runs -/

namespace Backend

/-- What is named in the step has paths of segments. -/
def AddressesPlain (s : Backend) : BackendEvent → Prop
  | .environment batch => (Operation.commit batch.writes).AddressesPlain s.state
  | .advance i => ∀ running ∈ s.running[i]?, ∀ op ∈ running.program.next?,
      op.AddressesPlain s.state
  | _ => True

instance (cloud : Cloud) (op : Operation) : Decidable (op.AddressesPlain cloud) :=
  inferInstanceAs (Decidable (∀ address ∈ op.addresses cloud, Plain address))

instance (s : Backend) : (e : BackendEvent) → Decidable (s.AddressesPlain e)
  | .environment batch =>
    inferInstanceAs (Decidable ((Operation.commit batch.writes).AddressesPlain s.state))
  | .advance i => inferInstanceAs (Decidable (∀ running ∈ s.running[i]?,
      ∀ op ∈ running.program.next?, op.AddressesPlain s.state))
  | .start _ | .lose _ _ => inferInstanceAs (Decidable True)

variable {emailKey : String → String} {s t : Backend} {e : BackendEvent}

theorem plain_step (h : s.state.Plain) (hplain : s.AddressesPlain e)
    (hstep : step emailKey s e = some t) : t.state.Plain := by
  cases e with
  | environment batch =>
    obtain ⟨cloud, hcommits, rfl⟩ := Jobs.environment_step.mp hstep
    have hperform : (Operation.perform (.commit batch.writes) s.state).2 = cloud :=
      congrArg Prod.snd (Cloud.settle_ok (commits_eq_some hcommits).2)
    exact hperform ▸ h.perform hplain
  | start job =>
    obtain rfl := Jobs.start_step.mp hstep
    exact h
  | advance i =>
    obtain ⟨running, op, k, hi, hprogram, rfl⟩ := Jobs.advance_step.mp hstep
    have hop := hplain running hi op (by rw [hprogram]; rfl)
    dsimp only
    rw [hprogram, advance_call_snd]
    exact h.perform hop
  | lose i failure =>
    obtain ⟨running, op, k, -, -, rfl⟩ := Jobs.lose_step.mp hstep
    exact h

theorem plain_of_run {events : List BackendEvent} (h : s.state.Plain)
    (hplain : EachStep (step emailKey) AddressesPlain s events)
    (hr : run (step emailKey) s events = some t) : t.state.Plain :=
  run_invariant (I := fun s : Backend => s.state.Plain)
    (fun _ _ _ h hplain hstep => plain_step h hplain hstep) h hplain hr

/-- The document that a text is the path of. -/
theorem eq_path_of_run {events : List BackendEvent} (h : s.state.Plain)
    (hplain : EachStep (step emailKey) AddressesPlain s events)
    (hr : run (step emailKey) s events = some t) {p q : DocPath} {fields : Fields}
    (hdoc : t.state.doc p = some fields) (hq : Plain q.segments) (htext : p.text = q.text) : p = q :=
  DocPath.eq_of_text_eq (plain_of_run h hplain hr p fields hdoc) hq htext

end Backend

end Duet
