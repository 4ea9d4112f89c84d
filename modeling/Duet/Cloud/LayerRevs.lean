import Duet.Cloud.AnnotationMirror
import Duet.Lib.Jobs

/-!
# The revisions of a layer

Every write of an author's layer stores the revision after the one it has read: a transaction the
one that is there, a slice the one it has read before its batch. Where the layer's document is gone,
the revisions begin at one again.

## Main definitions

* `RevEffect` — what writes do to the layer's document, and from what they compute its revision.
* `Program.Revises` — programs whose writes are such.
* `LayerRuns.step` — the calls of several devices, and the revisions that have been stored.

## Main results

* `revises_performCloud` — the calls of the repository are such programs.
* `revsIncrease_iff` — when every stored revision is greater than all before it.
-/

namespace Duet

open Lib Program

/-! ## Writes that take effect -/

/-- The writes of a transaction that take effect. -/
def Transaction.effective (cloud : Cloud) : Transaction → List Write
  | commit writes => if (cloud.commit writes).isOk then writes else []
  | abort _ => []
  | get path k => (k (cloud.doc path)).effective cloud

/-- The writes of an operation that take effect. -/
def Operation.effective (cloud : Cloud) : Operation → List Write
  | .get _ | .list _ => []
  | .commit writes => if (cloud.commit writes).isOk then writes else []
  | .transaction body => body.effective cloud

/-- The revision that a write stores in the document. -/
def Write.rev? (path : DocPath) : Write → Option Int
  | .set path' fields => if path' = path then (fields.read "rev").asInt else none
  | _ => none

theorem Transaction.commit_effective (body : Transaction) (cloud : Cloud) :
    cloud.commit (body.effective cloud) = .ok (cloud.settle (body.run cloud)).2 := by
  induction body with
  | commit writes =>
    simp only [effective, run]
    cases hcommit : cloud.commit writes with
    | error failure => rfl
    | ok cloud' => exact hcommit
  | abort failure => rfl
  | get path k ih => exact ih _

theorem Operation.commit_effective (op : Operation) (cloud : Cloud) :
    cloud.commit (op.effective cloud) = .ok (op.perform cloud).2 := by
  cases op with
  | get path => rfl
  | list query => rfl
  | commit writes => exact Transaction.commit_effective (.commit writes) cloud
  | transaction body => exact Transaction.commit_effective body cloud

/-! ## What the writes do to the layer -/

/-- Writes leave the document at `path` alone or delete it; or they store it once, with the revision
after the one of `base`. -/
inductive RevEffect (path : DocPath) (base : Option (Option Fields)) (writes : List Write) :
    Prop where
  | leaves : (∀ write ∈ writes, write.path = path → write = .delete path) →
    RevEffect path base writes
  | store (data : Option Fields) (fields : Fields) (rev : Int) (rest : List Write) :
    base = some data → Firestore.nextRev data = some rev → fields.read "rev" = .int rev →
    writes = .set path fields :: rest → (∀ write ∈ rest, write.path ≠ path) →
    RevEffect path base writes

/-- The writes of a transaction are such, for the document that it has read last. -/
def Transaction.Revises (path : DocPath) (base : Option (Option Fields)) : Transaction → Prop
  | commit writes => RevEffect path base writes
  | abort _ => True
  | get path' k => ∀ data, (k data).Revises path (if path' = path then some data else base)

/-- The writes of a program are such, for the document that it has read last. -/
def Revises {α : Type} (path : DocPath) : Option (Option Fields) → AdminProgram α → Prop
  | _, .done _ => True
  | _, .fail _ => True
  | base, .call (.get path') k => ∀ data : Option Fields,
      Revises path (if path' = path then some data else base) (k data)
  | base, .call (.list query) k => ∀ docs : List (DocPath × Fields),
      (∀ entry ∈ docs, query.selects entry.1 entry.2 = true) → Revises path base (k docs)
  | base, .call (.commit writes) k => RevEffect path base writes ∧ Revises path base (k ())
  | base, .call (.transaction body) k => body.Revises path none ∧ Revises path base (k ())

section

variable {pieceId uid : String} {base : Option (Option Fields)} {writes : List Write}

theorem revEffect_of_ne {path : DocPath} (h : ∀ write ∈ writes, write.path ≠ path) :
    RevEffect path base writes :=
  .leaves fun write hwrite hpath => absurd hpath (h write hwrite)

theorem read_layerToFirestore_rev (layer : InkLayer) (rev : Int) (updatedAt : DateTime) :
    (layerToFirestore layer rev updatedAt).read "rev" = .int rev := by
  simp [layerToFirestore, Assoc.ofList, Fields.read_set]

/-- A layer that is stored with the revision after the one that has been read from it. -/
theorem revEffect_layer {path ref : DocPath} {data : Option Fields} {layer : InkLayer} {rev : Int}
    {now : DateTime} {rest : List Write} (hrev : Firestore.nextRev data = some rev)
    (hbase : ref = path → base = some data) (hrest : ∀ write ∈ rest, write.path ≠ path) :
    RevEffect path base (.set ref (layerToFirestore layer rev now) :: rest) := by
  by_cases href : ref = path
  · subst href
    exact .store data _ rev rest (hbase rfl) hrev (read_layerToFirestore_rev layer rev now) rfl
      hrest
  · refine revEffect_of_ne fun write hwrite => ?_
    obtain rfl | hwrite := List.mem_cons.mp hwrite
    · exact href
    · exact hrest write hwrite

theorem revises_rewriteLayer {path ref : DocPath} {data : Fields} {now : DateTime}
    {change : List InkStroke → List InkStroke} (hbase : ref = path → base = some (some data)) :
    (Firestore.rewriteLayer now ref data change).Revises path base := by
  unfold Firestore.rewriteLayer
  split
  · next layer rev _ hrev => exact revEffect_layer hrev hbase (List.forall_mem_nil _)
  · trivial

theorem revises_addStroke (user : String) (now : DateTime) (pieceId' : String)
    (stroke : InkStroke) :
    Revises (.layers pieceId uid) none (Firestore.addStroke user now pieceId' stroke) := by
  unfold Firestore.addStroke
  split_ifs
  · trivial
  · refine ⟨fun data => ?_, trivial⟩
    cases data with
    | some data => exact revises_rewriteLayer fun href => if_pos href
    | none =>
      refine fun piece => ?_
      rw [if_neg nofun]
      exact revEffect_layer rfl (fun href => if_pos href) (List.forall_mem_nil _)

theorem revises_strokeHolder_bind {path : DocPath} {user strokeId : String}
    {docs : List (DocPath × Fields)} {f : DocPath → AdminProgram Unit}
    (h : ∀ ref, Revises path base (f ref)) :
    Revises path base (Firestore.strokeHolder user strokeId docs >>= f) := by
  induction docs with
  | nil => trivial
  | cons entry docs ih =>
    obtain ⟨ref, data⟩ := entry
    rw [Firestore.strokeHolder]
    cases strokesFromLayer data with
    | none => trivial
    | some strokes =>
      simp only [Program.orFail_some, Program.done_bind]
      split
      · exact ih
      · split_ifs
        · trivial
        · exact h ref

theorem revises_eraseStroke (user : String) (now : DateTime) (pieceId' strokeId : String) :
    Revises (.layers pieceId uid) none (Firestore.eraseStroke user now pieceId' strokeId) := by
  refine fun docs _ => revises_strokeHolder_bind fun ref => ⟨fun data => ?_, trivial⟩
  cases data with
  | none => exact revEffect_of_ne (List.forall_mem_nil _)
  | some data => exact revises_rewriteLayer fun href => if_pos href

theorem revises_addAudioNote (user pieceId' : String) (note : AudioNote) :
    Revises (.layers pieceId uid) none (Firestore.addAudioNote user pieceId' note) := by
  unfold Firestore.addAudioNote
  split_ifs
  · trivial
  · exact ⟨revEffect_of_ne (by simp [Write.path]), trivial⟩

theorem revises_deleteAudioNote (user : String) (now : DateTime) (pieceId' noteId : String) :
    Revises (.layers pieceId uid) none (Firestore.deleteAudioNote user now pieceId' noteId) := by
  intro data
  rw [if_neg nofun]
  cases data with
  | none => trivial
  | some data =>
    change Revises _ none (if _ then _ else if _ then _ else _)
    split_ifs
    · trivial
    · trivial
    · exact ⟨revEffect_of_ne (by simp [Write.path]), trivial⟩

theorem revises_deleteAll {path : DocPath} {query : Query} :
    Revises path base (Firestore.deleteAll query) := by
  intro docs _
  change Revises path base (if _ then _ else _)
  split_ifs
  · trivial
  · refine ⟨.leaves fun write hwrite hpath => ?_, trivial⟩
    obtain ⟨entry, -, rfl⟩ := List.mem_map.mp hwrite
    exact congrArg Write.delete hpath

theorem revises_bind {α β : Type} {path : DocPath} {p : AdminProgram α} {f : α → AdminProgram β}
    (hp : Revises path base p) (hf : ∀ a base, Revises path base (f a)) :
    Revises path base (p >>= f) := by
  induction p generalizing base with
  | done a => exact hf a base
  | fail e => trivial
  | call op k ih =>
    cases op with
    | get path' => exact fun data => ih data (hp data)
    | list query => exact fun docs hdocs => ih docs (hp docs hdocs)
    | commit writes => exact ⟨hp.1, ih () hp.2⟩
    | transaction body => exact ⟨hp.1, ih () hp.2⟩

/-- The notes of an author are no layer. -/
theorem notesBy_ne_layers {pieceId' uid' : String} {docs : List (DocPath × Fields)}
    (h : ∀ entry ∈ docs, (Query.notesBy pieceId' uid').selects entry.1 entry.2 = true) :
    ∀ write ∈ docs.map fun entry => Write.delete entry.1, write.path ≠ .layers pieceId uid := by
  intro write hwrite
  obtain ⟨⟨path, fields⟩, hentry, rfl⟩ := List.mem_map.mp hwrite
  have hselects := h _ hentry
  rintro hpath
  obtain rfl : path = .layers pieceId uid := hpath
  cases hselects

theorem revises_replaceAuthorSlice (now : DateTime) (pieceId' uid' : String) (role : PieceRole)
    (strokes : List InkStroke) (audioNotes : List AudioNote) :
    Revises (.layers pieceId uid) none
      (Firestore.replaceAuthorSlice now pieceId' uid' role strokes audioNotes) := by
  intro data docs hdocs
  cases hrev : Firestore.nextRev data with
  | none => trivial
  | some rev =>
    refine ⟨revEffect_layer hrev (fun href => if_pos href) fun write hwrite => ?_, trivial⟩
    obtain hnote | hnote := List.mem_append.mp hwrite
    · exact notesBy_ne_layers hdocs write hnote
    · obtain ⟨note, -, rfl⟩ := List.mem_map.mp hnote
      simp [Write.path]

theorem revises_removeAuthorSlice (pieceId' uid' : String) :
    Revises (.layers pieceId uid) none (Firestore.removeAuthorSlice pieceId' uid') := by
  intro docs hdocs
  refine ⟨.leaves fun write hwrite hpath => ?_, trivial⟩
  obtain rfl | hnote := List.mem_cons.mp hwrite
  · exact congrArg Write.delete hpath
  · exact absurd hpath (notesBy_ne_layers hdocs write hnote)

/-- The calls of the repository compute revisions from what they have read last. -/
theorem revises_performCloud (user : String) (now : DateTime) (pieceId' : String)
    (call : AnnotationCall) :
    Revises (.layers pieceId uid) none (call.performCloud user now pieceId') := by
  cases call with
  | addStroke stroke => exact revises_addStroke user now pieceId' stroke
  | eraseStroke strokeId => exact revises_eraseStroke user now pieceId' strokeId
  | addAudioNote note => exact revises_addAudioNote user pieceId' note
  | deleteAudioNote noteId => exact revises_deleteAudioNote user now pieceId' noteId
  | replaceAuthorSlice uid' role strokes audioNotes =>
    exact revises_replaceAuthorSlice now pieceId' uid' role strokes audioNotes
  | removeAuthorSlice uid' => exact revises_removeAuthorSlice pieceId' uid'
  | clearPiece => exact revises_bind revises_deleteAll fun _ _ => revises_deleteAll

end

/-! ## Runs -/

/-- A call of the repository: whose device it is on, and its clock. -/
structure RevisionCall where
  user : String
  now : DateTime
  pieceId : String
  call : AnnotationCall
  deriving DecidableEq, Repr

def RevisionCall.program (c : RevisionCall) : AdminProgram Unit :=
  c.call.performCloud c.user c.now c.pieceId

/-- The calls that run; the revisions that have been stored in the layer, in their order; and for
each call the document that it has read last there, and how many revisions had been stored then. -/
structure LayerRuns where
  jobs : Jobs RevisionCall Operation Operation.Response CloudFailure Unit Cloud
  revs : List Int
  reads : List (Option (Option Fields × Nat))

namespace LayerRuns

/-- No call has been made. -/
def start (cloud : Cloud) : LayerRuns := ⟨⟨cloud, []⟩, [], []⟩

/-- The next operation of the `i`-th call. -/
def next? (s : LayerRuns) (i : Nat) : Option Operation :=
  s.jobs.running[i]?.bind fun running => running.program.next?

section

variable (path : DocPath)

/-- What an operation reads of the layer. -/
def read? (s : LayerRuns) : Operation → Option (Option Fields × Nat)
  | .get path' => if path' = path then some (s.jobs.state.doc path, s.revs.length) else none
  | _ => none

/-- An operation has taken effect. -/
def record (s : LayerRuns) (i : Nat) (op : Operation) : LayerRuns :=
  { s with
    revs := s.revs ++ (op.effective s.jobs.state).filterMap (·.rev? path)
    reads := match s.read? path op with
      | some read => s.reads.set i (some read)
      | none => s.reads }

/-- One event: a call starts, performs its next operation, or fails before it. -/
def step (s : LayerRuns) (e : JobEvent Empty RevisionCall CloudFailure) : Option LayerRuns :=
  (Jobs.step RevisionCall.program Operation.perform (fun _ => nofun) s.jobs e).map fun jobs =>
    match e with
    | .environment _ | .lose _ _ => { s with jobs := jobs }
    | .start _ => { s with jobs := jobs, reads := s.reads ++ [none] }
    | .advance i =>
      match s.next? i with
      | some op => { s.record path i op with jobs := jobs }
      | none => { s with jobs := jobs }

/-- What the revision of an operation of the `i`-th call is computed from: in a transaction the
present document, else the one it has read, with how many revisions had been stored then. -/
def base? (s : LayerRuns) (i : Nat) : Operation → Option (Option Fields × Nat)
  | .transaction _ => some (s.jobs.state.doc path, s.revs.length)
  | _ => s.reads[i]?.join

/-- A revision is stored when none has been since the document was read that it is computed from;
and that document was there, unless none has ever been stored. -/
def FromLast (s : LayerRuns) : JobEvent Empty RevisionCall CloudFailure → Prop
  | .advance i => ∀ op ∈ s.next? i, (op.effective s.jobs.state).filterMap (·.rev? path) ≠ [] →
      ∃ base ∈ s.base? path i op, base.2 = s.revs.length ∧ (base.1.isSome = true ∨ s.revs = [])
  | _ => True

instance (s : LayerRuns) (e : JobEvent Empty RevisionCall CloudFailure) :
    Decidable (s.FromLast path e) :=
  match e with
  | .advance i => inferInstanceAs (Decidable (∀ op ∈ s.next? i,
      (op.effective s.jobs.state).filterMap (·.rev? path) ≠ [] → ∃ base ∈ s.base? path i op,
        base.2 = s.revs.length ∧ (base.1.isSome = true ∨ s.revs = [])))
  | .environment _ => isTrue trivial
  | .start _ => isTrue trivial
  | .lose _ _ => isTrue trivial

end

/-- Every stored revision is greater than all before it. -/
def RevsIncrease (s : LayerRuns) : Prop := s.revs.Pairwise (· < ·)

end LayerRuns

/-! ### One operation -/

section

variable {path : DocPath} {base : Option (Option Fields)} {cloud cloud' : Cloud}
  {writes : List Write}

theorem doc_commit_of_deletes (h : ∀ write ∈ writes, write.path = path → write = .delete path)
    (hok : cloud.commit writes = .ok cloud') :
    cloud'.doc path = cloud.doc path ∨ cloud'.doc path = none := by
  induction writes generalizing cloud with
  | nil =>
    obtain rfl := Except.ok.inj hok
    exact .inl rfl
  | cons write writes ih =>
    have hrest := fun w hw => h w (List.mem_cons_of_mem _ hw)
    rw [Cloud.commit] at hok
    cases hresult : write.result (cloud.doc write.path) with
    | error failure => simp [hresult, bind, Except.bind] at hok
    | ok fields =>
      rw [hresult] at hok
      obtain hsame | hnone := ih hrest hok
      · rw [hsame]
        by_cases hpath : write.path = path
        · obtain rfl := h write List.mem_cons_self hpath
          obtain rfl := Except.ok.inj hresult
          exact .inr (Cloud.doc_store_self _ _ _)
        · exact .inl (Cloud.doc_store_of_ne _ (Ne.symm hpath) _)
      · exact .inr hnone

/-- What writes do to the layer's document, and the revisions they store. -/
theorem RevEffect.cases_doc (h : RevEffect path base writes)
    (hok : cloud.commit writes = .ok cloud') :
    (writes.filterMap (·.rev? path) = [] ∧
        (cloud'.doc path = cloud.doc path ∨ cloud'.doc path = none)) ∨
      ∃ data fields rev, base = some data ∧ Firestore.nextRev data = some rev ∧
        fields.read "rev" = .int rev ∧ writes.filterMap (·.rev? path) = [rev] ∧
          cloud'.doc path = some fields := by
  cases h with
  | leaves hdeletes =>
    refine .inl ⟨List.filterMap_eq_nil_iff.mpr fun write hwrite => ?_,
      doc_commit_of_deletes hdeletes hok⟩
    cases write with
    | set path' fields =>
      have hne : path' ≠ path := fun hpath => by cases hdeletes _ hwrite hpath
      exact if_neg hne
    | _ => rfl
  | store data fields rev rest hbase hrev hfields hwrites hrest =>
    refine .inr ⟨data, fields, rev, hbase, hrev, hfields, ?_, ?_⟩
    · have hnone : rest.filterMap (·.rev? path) = [] := by
        refine List.filterMap_eq_nil_iff.mpr fun write hwrite => ?_
        cases write with
        | set path' fields' => exact if_neg (hrest _ hwrite)
        | _ => rfl
      have hset : Write.rev? path (.set path fields) = some rev := by
        rw [Write.rev?, if_pos rfl, hfields, Value.asInt_int]
      rw [hwrites, List.filterMap_cons_some hset, hnone]
    · have hresult : Write.result (.set path fields) (cloud.doc path) = .ok (some fields) := rfl
      rw [hwrites, Cloud.commit_cons_of_ok hresult] at hok
      have hkept : cloud'.doc path = (cloud.store path (some fields)).doc path :=
        @Cloud.doc_commit_of_not (· ≠ path) _ _ _ _ hrest (fun hne => hne rfl) hok
      rw [hkept]
      exact Cloud.doc_store_self _ _ _

theorem revEffect_transaction {body : Transaction} (h : body.Revises path base)
    (hbase : ∀ data, base = some data → data = cloud.doc path) :
    RevEffect path (some (cloud.doc path)) (body.effective cloud) := by
  induction body generalizing base with
  | commit writes =>
    rw [Transaction.effective]
    split_ifs
    · cases h with
      | leaves hdeletes => exact .leaves hdeletes
      | store data fields rev rest hread hrev hfields hwrites hrest =>
        exact .store data fields rev rest (congrArg some (hbase data hread).symm) hrev hfields
          hwrites hrest
    · exact revEffect_of_ne (List.forall_mem_nil _)
  | abort failure => exact revEffect_of_ne (List.forall_mem_nil _)
  | get path' k ih =>
    refine ih _ (h (cloud.doc path')) fun data hdata => ?_
    split_ifs at hdata with hpath
    · rw [← Option.some.inj hdata, hpath]
    · exact hbase data hdata

end

/-! ### The invariant -/

namespace LayerRuns

section

variable {path : DocPath} {s t : LayerRuns} {i : Nat} {data : Option Fields} {n : Nat}

/-- A document of the layer holds the `n`-th revision that has been stored, when there is one. -/
def Holds (revs : List Int) (data : Option Fields) (n : Nat) : Prop :=
  n ≤ revs.length ∧ ∀ fields, data = some fields →
    ∃ rev, fields.read "rev" = .int rev ∧ 0 < n ∧ revs[n - 1]? = some rev

theorem Holds.append {revs : List Int} (h : Holds revs data n) (more : List Int) :
    Holds (revs ++ more) data n := by
  refine ⟨?_, fun fields hfields => ?_⟩
  · rw [List.length_append]
    exact h.1.trans (Nat.le_add_right _ _)
  · obtain ⟨rev, hrev, hpos, hlast⟩ := h.2 fields hfields
    exact ⟨rev, hrev, hpos, by rw [List.getElem?_append_left (by have := h.1; omega), hlast]⟩

/-- The layer's document holds the last revision; what a call has read there held the last one then;
and what is left of a call computes its revision from that. -/
structure Inv (path : DocPath) (s : LayerRuns) : Prop where
  doc : Holds s.revs (s.jobs.state.doc path) s.revs.length
  pos : ∀ rev ∈ s.revs, 0 < rev
  length_reads : s.reads.length = s.jobs.running.length
  revises : ∀ (i : Nat) running, s.jobs.running[i]? = some running →
    Revises path (s.reads[i]?.join.map (·.1)) running.program
  reads : ∀ (i : Nat) data n, s.reads[i]? = some (some (data, n)) → Holds s.revs data n

theorem inv_start {cloud : Cloud} (hnew : cloud.doc path = none) : (start cloud).Inv path where
  doc := ⟨Nat.zero_le _, fun fields hfields => by cases hnew.symm.trans hfields⟩
  pos := nofun
  length_reads := rfl
  revises _ _ h := by cases h
  reads _ _ _ h := by cases h

/-- The revision after the one of a document is greater than all others exactly when the document
holds the last one. -/
theorem pairwise_append_iff {revs : List Int} {rev : Int} (hinc : revs.Pairwise (· < ·))
    (hpos : ∀ rev ∈ revs, 0 < rev) (hbase : Holds revs data n)
    (hrev : Firestore.nextRev data = some rev) :
    (revs ++ [rev]).Pairwise (· < ·) ↔ n = revs.length ∧ (data.isSome = true ∨ revs = []) := by
  have happend : (revs ++ [rev]).Pairwise (· < ·) ↔ ∀ r ∈ revs, r < rev := by
    rw [List.pairwise_append]
    simp [hinc]
  rw [happend]
  cases data with
  | none =>
    obtain rfl := Option.some.inj hrev
    constructor
    · intro hlt
      have hnil : revs = [] := by
        rw [List.eq_nil_iff_forall_not_mem]
        intro r hr
        have := hlt r hr
        have := hpos r hr
        omega
      exact ⟨by simpa [hnil] using hbase.1, .inr hnil⟩
    · rintro ⟨-, hnone | hnil⟩
      · cases hnone
      · simp [hnil]
  | some fields =>
    obtain ⟨last, hlast, hn, hget⟩ := hbase.2 fields rfl
    obtain rfl : last + 1 = rev := by
      simpa [Firestore.nextRev, hlast, Value.orNull] using hrev
    constructor
    · intro hlt
      refine ⟨?_, .inl rfl⟩
      by_contra hne
      have hle := hbase.1
      -- the revision after the document's has been stored
      have hbefore : n - 1 < revs.length := by omega
      have hn' : n < revs.length := by omega
      have hnext := List.pairwise_iff_getElem.mp hinc (n - 1) n hbefore hn' (by omega)
      have := hlt _ (List.getElem_mem hn')
      have hlast' : revs[n - 1] = last := by
        rw [List.getElem?_eq_getElem hbefore] at hget
        exact Option.some.inj hget
      omega
    · rintro ⟨rfl, -⟩ r hr
      obtain ⟨j, hj, rfl⟩ := List.getElem_of_mem hr
      have hbefore : revs.length - 1 < revs.length := by omega
      have hlast' : revs[revs.length - 1] = last := by
        rw [List.getElem?_eq_getElem hbefore] at hget
        exact Option.some.inj hget
      obtain hlt | heq := Nat.lt_or_eq_of_le (Nat.le_sub_one_of_lt hj)
      · have := List.pairwise_iff_getElem.mp hinc j (revs.length - 1) hj hbefore hlt
        omega
      · subst heq
        omega

/-! ### Steps -/

/-- What an operation of a call computes its revision from. -/
theorem revEffect_next {op : Operation} {k : op.Response → AdminProgram Unit}
    (h : Revises path (s.reads[i]?.join.map (·.1)) (.call op k)) :
    RevEffect path ((s.base? path i op).map (·.1)) (op.effective s.jobs.state) := by
  cases op with
  | get path' => exact revEffect_of_ne (List.forall_mem_nil _)
  | list query => exact revEffect_of_ne (List.forall_mem_nil _)
  | commit writes =>
    rw [Operation.effective]
    split_ifs
    · exact h.1
    · exact revEffect_of_ne (List.forall_mem_nil _)
  | transaction body => exact revEffect_transaction h.1 nofun

/-- What is left of a call computes its revision from what the call has read last. -/
theorem revises_advance {op : Operation} {k : op.Response → AdminProgram Unit}
    (h : Revises path (s.reads[i]?.join.map (·.1)) (.call op k)) (hi : i < s.reads.length) :
    Revises path ((s.record path i op).reads[i]?.join.map (·.1))
      ((Program.call op k).advance Operation.perform s.jobs.state).1 := by
  obtain ⟨r, hr, hnext⟩ | ⟨e, hnext⟩ := advance_call_fst Operation.perform op k s.jobs.state
  · rw [hnext]
    cases op with
    | get path' =>
      obtain rfl := Except.ok.inj hr
      have hread := h (s.jobs.state.doc path')
      simp only [record, read?]
      split_ifs with hpath
      · rw [if_pos hpath, hpath] at hread
        rw [hpath]
        simpa [List.getElem?_set_self hi] using hread
      · rw [if_neg hpath] at hread
        exact hread
    | list query =>
      obtain rfl := Except.ok.inj hr
      exact h _ fun entry hentry => (Cloud.mem_list.mp hentry).2
    | commit writes => exact h.2
    | transaction body => exact h.2
  · rw [hnext]
    trivial

theorem getElem?_reads_record {op : Operation} {j : Nat} (hij : j ≠ i) :
    (s.record path i op).reads[j]? = s.reads[j]? := by
  simp only [record]
  split
  · exact List.getElem?_set_ne (Ne.symm hij)
  · rfl

theorem length_reads_record {op : Operation} :
    (s.record path i op).reads.length = s.reads.length := by
  simp only [record]
  split
  · exact List.length_set
  · rfl

/-- What a call has read is what it had, or the present document. -/
theorem mem_reads_record {op : Operation} {j : Nat} {read : Option Fields × Nat}
    (h : (s.record path i op).reads[j]? = some (some read)) :
    s.reads[j]? = some (some read) ∨ read = (s.jobs.state.doc path, s.revs.length) := by
  simp only [record] at h
  split at h
  · next present hread =>
    obtain ⟨rfl, heq⟩ | ⟨-, hold⟩ := getElem?_set_cases h
    · right
      obtain rfl := Option.some.inj heq
      cases op with
      | get path' =>
        simp only [read?] at hread
        split_ifs at hread
        exact (Option.some.inj hread).symm
      | _ => cases hread
    · exact .inl hold
  · exact .inl h

theorem Inv.base {op : Operation} (h : s.Inv path) (hbase : s.base? path i op = some (data, n)) :
    Holds s.revs data n := by
  cases op with
  | transaction body =>
    obtain ⟨rfl, rfl⟩ := Prod.mk.inj (Option.some.inj hbase)
    exact h.doc
  | _ => exact h.reads i data n (Option.join_eq_some_iff.mp hbase)

theorem Holds.nextRev_pos {revs : List Int} {rev : Int} (h : Holds revs data n)
    (hpos : ∀ rev ∈ revs, 0 < rev) (hrev : Firestore.nextRev data = some rev) : 0 < rev := by
  cases data with
  | none =>
    obtain rfl := Option.some.inj hrev
    decide
  | some fields =>
    obtain ⟨last, hlast, -, hget⟩ := h.2 fields rfl
    obtain rfl : last + 1 = rev := by
      simpa [Firestore.nextRev, hlast, Value.orNull] using hrev
    have := hpos last (List.mem_of_getElem? hget)
    omega

theorem inv_advance {job : RevisionCall} {op : Operation} {k : op.Response → AdminProgram Unit}
    (h : s.Inv path) (hinc : s.RevsIncrease)
    (hrunning : s.jobs.running[i]? = some ⟨job, .call op k⟩) :
    let t : LayerRuns := { s.record path i op with
      jobs := ⟨(op.perform s.jobs.state).2, s.jobs.running.set i
        ⟨job, ((Program.call op k).advance Operation.perform s.jobs.state).1⟩⟩ }
    t.Inv path ∧ (t.RevsIncrease ↔
      ((op.effective s.jobs.state).filterMap (·.rev? path) ≠ [] →
        ∃ base ∈ s.base? path i op, base.2 = s.revs.length ∧
          (base.1.isSome = true ∨ s.revs = []))) := by
  intro t
  have hi : i < s.reads.length := by
    rw [h.length_reads]
    exact (List.getElem?_eq_some_iff.mp hrunning).1
  have hrevises := h.revises i _ hrunning
  have hrevs : t.revs = s.revs ++ (op.effective s.jobs.state).filterMap (·.rev? path) := rfl
  have hlength : t.reads.length = t.jobs.running.length := by
    rw [length_reads_record, h.length_reads, List.length_set]
  have hleft : ∀ (j : Nat) running, t.jobs.running[j]? = some running →
      Revises path (t.reads[j]?.join.map (·.1)) running.program := by
    intro j running hj
    obtain ⟨rfl, rfl⟩ | ⟨hij, hold⟩ := getElem?_set_cases hj
    · exact revises_advance hrevises hi
    · have hsame : t.reads[j]? = s.reads[j]? := getElem?_reads_record (Ne.symm hij)
      rw [hsame]
      exact h.revises j running hold
  have hreads : ∀ (j : Nat) data n, t.reads[j]? = some (some (data, n)) → Holds t.revs data n := by
    intro j data n hj
    rw [hrevs]
    obtain hold | heq := mem_reads_record hj
    · exact (h.reads j data n hold).append _
    · obtain ⟨rfl, rfl⟩ := Prod.mk.inj heq
      exact h.doc.append _
  obtain ⟨hnone, hdoc⟩ | ⟨data, fields, rev, hbase, hrev, hfields, hstored, hdoc⟩ :=
    (revEffect_next hrevises).cases_doc (Operation.commit_effective op s.jobs.state)
  · rw [hnone, List.append_nil] at hrevs
    refine ⟨⟨?_, by rw [hrevs]; exact h.pos, hlength, hleft, hreads⟩, ?_⟩
    · rw [hrevs]
      obtain hsame | hgone := hdoc
      · exact ⟨le_rfl, fun fields hfields => h.doc.2 fields (hsame.symm.trans hfields)⟩
      · exact ⟨le_rfl, fun fields hfields => by cases hgone.symm.trans hfields⟩
    · rw [RevsIncrease, hrevs]
      exact ⟨fun _ hstores => absurd hnone hstores, fun _ => hinc⟩
  · obtain ⟨⟨data, n⟩, hread, rfl⟩ := Option.map_eq_some_iff.mp hbase
    have hholds := h.base hread
    rw [hstored] at hrevs
    refine ⟨⟨?_, ?_, hlength, hleft, hreads⟩, ?_⟩
    · rw [hrevs]
      refine ⟨le_rfl, fun fields' hfields' => ⟨rev, ?_, by simp, by simp⟩⟩
      obtain rfl := Option.some.inj (hdoc.symm.trans hfields')
      exact hfields
    · rw [hrevs]
      intro r hr
      obtain hold | hnew := List.mem_append.mp hr
      · exact h.pos r hold
      · obtain rfl := List.mem_singleton.mp hnew
        exact hholds.nextRev_pos h.pos hrev
    · rw [RevsIncrease, hrevs, pairwise_append_iff hinc h.pos hholds hrev, hstored, hread]
      simp

/-- A call has started. -/
theorem inv_call {pieceId uid : String} {job : RevisionCall} (h : s.Inv (.layers pieceId uid)) :
    Inv (.layers pieceId uid) { s with
      jobs := { s.jobs with running := s.jobs.running ++ [⟨job, job.program⟩] }
      reads := s.reads ++ [none] } where
  doc := h.doc
  pos := h.pos
  length_reads := by simp [h.length_reads]
  revises j running hj := by
    obtain hold | ⟨rfl, rfl⟩ := getElem?_concat_cases hj
    · have hlt := (List.getElem?_eq_some_iff.mp hold).1
      rw [← h.length_reads] at hlt
      rw [List.getElem?_append_left hlt]
      exact h.revises j running hold
    · rw [← h.length_reads, List.getElem?_concat_length]
      exact revises_performCloud job.user job.now job.pieceId job.call
  reads j data n hj := by
    obtain hold | ⟨-, hnone⟩ := getElem?_concat_cases hj
    · exact h.reads j data n hold
    · cases hnone

/-- A call has failed. -/
theorem inv_lose {job : RevisionCall} {e : CloudFailure} (h : s.Inv path) : Inv path { s with
    jobs := { s.jobs with running := s.jobs.running.set i ⟨job, .fail e⟩ } } where
  doc := h.doc
  pos := h.pos
  length_reads := by simp [h.length_reads]
  revises j running hj := by
    obtain ⟨-, rfl⟩ | ⟨-, hold⟩ := getElem?_set_cases hj
    · trivial
    · exact h.revises j running hold
  reads := h.reads

/-- After one event, the condition is exact. -/
theorem inv_step {pieceId uid : String} {e : JobEvent Empty RevisionCall CloudFailure}
    (h : s.Inv (.layers pieceId uid)) (hinc : s.RevsIncrease)
    (hstep : s.step (.layers pieceId uid) e = some t) :
    t.Inv (.layers pieceId uid) ∧ (t.RevsIncrease ↔ s.FromLast (.layers pieceId uid) e) := by
  obtain ⟨jobs, hjobs, rfl⟩ := Option.map_eq_some_iff.mp hstep
  cases e with
  | environment e => cases e
  | start job =>
    obtain rfl := Jobs.start_step.mp hjobs
    exact ⟨inv_call h, iff_of_true hinc trivial⟩
  | advance i =>
    obtain ⟨⟨job, program⟩, op, k, hrunning, rfl, rfl⟩ := Jobs.advance_step.mp hjobs
    have hnext : s.next? i = some op := by simp [next?, hrunning, Program.next?]
    have hadvance := inv_advance h hinc hrunning
    simp only [hnext, FromLast, Option.mem_some_iff, forall_eq', advance_call_snd]
    exact hadvance
  | lose i e =>
    obtain ⟨⟨job, program⟩, op, k, -, -, rfl⟩ := Jobs.lose_step.mp hjobs
    exact ⟨inv_lose h, iff_of_true hinc trivial⟩

end

theorem fromLast_of_disabled {path : DocPath} {s : LayerRuns}
    {e : JobEvent Empty RevisionCall CloudFailure} (hstep : s.step path e = none) :
    s.FromLast path e := by
  cases e with
  | advance i =>
    intro op hop
    have hjobs := Option.map_eq_none_iff.mp hstep
    obtain ⟨running, hrunning, hnext⟩ := Option.bind_eq_some_iff.mp hop
    simp [Jobs.step, hrunning, hnext] at hjobs
  | _ => trivial

/-- The revisions of a layer increase over a run exactly when each one is stored while none has been
since the read it is computed from, and with a document there unless it is the first. -/
theorem revsIncrease_iff {pieceId uid : String} {cloud : Cloud}
    (hnew : cloud.doc (.layers pieceId uid) = none)
    (events : List (JobEvent Empty RevisionCall CloudFailure)) :
    Always (step (.layers pieceId uid)) RevsIncrease (start cloud) events ↔
      EachStep (step (.layers pieceId uid)) (FromLast (.layers pieceId uid)) (start cloud) events :=
  always_iff_eachStep (fun _ _ _ h hinc hstep => (inv_step h hinc hstep).1)
    (fun _ _ _ h hinc hstep => (inv_step h hinc hstep).2) (fun _ _ => fromLast_of_disabled)
    (inv_start hnew) List.Pairwise.nil

/-- A call of `ann` at her piece. -/
def annCalls (call : AnnotationCall) : JobEvent Empty RevisionCall CloudFailure :=
  .start ⟨"ann", noon, "piece", call⟩

/-- A stroke of `ann`. -/
def annsStroke (id : String) : InkStroke := ⟨id, "ann", 0, "red", []⟩

/-- `ann` draws a stroke, draws another one on a second device, and merges her slice. -/
def annDrawsTwice : List (JobEvent Empty RevisionCall CloudFailure) :=
  [annCalls (.addStroke (annsStroke "s1")), annCalls (.addStroke (annsStroke "s2")), .advance 1,
    .advance 0, annCalls (.replaceAuthorSlice "ann" .owner [annsStroke "s1"] []), .advance 2,
    .advance 2, .advance 2]

theorem revsIncrease_annDrawsTwice :
    Always (step (.layers "piece" "ann")) RevsIncrease (start Cloud.empty) annDrawsTwice :=
  (revsIncrease_iff rfl annDrawsTwice).mpr (by decide +kernel)

/-- `ann` draws two strokes, clears her slice, and draws another one. -/
def annStartsAgain : List (JobEvent Empty RevisionCall CloudFailure) :=
  [annCalls (.addStroke (annsStroke "s1")), .advance 0, annCalls (.addStroke (annsStroke "s2")),
    .advance 1, annCalls (.removeAuthorSlice "ann"), .advance 2, .advance 2,
    annCalls (.addStroke (annsStroke "s3")), .advance 3]

/-- Once a slice has been removed, the revisions begin again. -/
theorem not_revsIncrease :
    ¬∀ (pieceId uid : String) (cloud : Cloud), cloud.doc (.layers pieceId uid) = none →
      ∀ events, Always (step (.layers pieceId uid)) RevsIncrease (start cloud) events := by
  intro h
  have hrevs : (run (step (.layers "piece" "ann")) (start Cloud.empty) annStartsAgain).map (·.revs)
      = some [1, 2, 1] := by decide +kernel
  obtain ⟨s, hrun, hs⟩ := Option.map_eq_some_iff.mp hrevs
  have hinc := (h "piece" "ann" Cloud.empty rfl annStartsAgain).last hrun
  rw [RevsIncrease, hs] at hinc
  exact absurd hinc (by decide)

end LayerRuns

end Duet
