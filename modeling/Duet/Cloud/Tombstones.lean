import Duet.Cloud.Membership
import Mathlib.Data.List.Induction

/-!
# Tombstones of audio notes

A deleted note stays in the cloud with a `deletedAt` until the daily sweep removes it. The rules
let its author change `deletedAt`, in either direction.

## Main definitions

* `sweepTombstonesBefore` — the daily sweep.
* `Sweeper` — clients that write and sweeps that run, interleaved one operation at a time.
* `Tombstoned`, `NoteGone` — what becomes of a note.
* `Write.Nulls` — a write says `null` for a field.
* `Sweeper.Undeletes` — the author of a tombstone writes it with a `deletedAt` of `null`.

## Main results

* `Write.read_result_eq_null_iff` — a field that is not `null` becomes `null` by such a write.
* `Sweeper.tombstoned_iff` — tombstones last until they are swept exactly in the runs in which no
  author undeletes one.
-/

namespace Duet

open Lib Program Verdict

/-! ## The sweep -/

/-- Hard-deletes the tombstones among the notes that the query found; the recording of a note is
deleted from the storage on the way, best-effort. -/
def sweepNotes : List (DocPath × Fields) → AdminProgram Nat
  | [] => done 0
  | note :: rest =>
    match note.2.read "deletedAt" with
    | .timestamp _ => do
      commit [.delete note.1]
      let deleted ← sweepNotes rest
      done (deleted + 1)
    | _ => sweepNotes rest

def sweepTombstonesBefore (cutoff : Int) : AdminProgram Nat := do
  let snapshot ← listDocs (.deletedUntil cutoff)
  sweepNotes snapshot

/-- The operations of a sweep. -/
def Sweeps : Operation → Prop
  | .list _ => True
  | .commit writes => ∃ path, writes = [.delete path]
  | _ => False

theorem issues_sweepNotes {can : (op : Operation) → op.Response → Prop}
    (notes : List (DocPath × Fields)) : (sweepNotes notes).Issues can Sweeps := by
  induction notes with
  | nil => trivial
  | cons note rest ih =>
    rw [sweepNotes]
    split
    · exact .perform_bind ⟨_, rfl⟩ fun _ _ => ih.bind fun _ => trivial
    · exact ih

theorem issues_sweepTombstonesBefore {can : (op : Operation) → op.Response → Prop} (cutoff : Int) :
    (sweepTombstonesBefore cutoff).Issues can Sweeps :=
  .perform_bind trivial fun (notes : List (DocPath × Fields)) _ => issues_sweepNotes notes

/-! ## Writing `null` -/

theorem Change.apply_set (value old : Value) : (Change.set value).apply old = value := rfl

theorem Change.apply_arrayRemove_ne_null (value old : Value) :
    (Change.arrayRemove value).apply old ≠ .null := by
  cases old <;> simp [Change.apply]

namespace Write

/-- The write says `null` for the field; an `arrayRemove` makes an array of it. -/
def Nulls (key : String) : Write → Prop
  | set _ fields => fields.read key = .null
  | merge _ fields => (Assoc.ofList fields).get key = some .null
  | update _ changes => (changes.reverse.find? (·.1 = key)).map (·.2) = some (.set .null)
  | delete _ => False

theorem get_merged (fields old : Fields) (key : String) :
    (fields.foldl (fun merged field => merged.set field.1 field.2) old).get key =
      ((Assoc.ofList fields).get key).or (old.get key) := by
  induction fields using List.reverseRecOn with
  | nil => rfl
  | append_singleton fields field ih =>
    rw [List.foldl_append, Assoc.ofList, List.foldl_append]
    simp only [List.foldl_cons, List.foldl_nil, Assoc.get_set]
    split_ifs
    · rfl
    · exact ih

theorem changed_concat (old : Fields) (changes : List (String × Change)) (change : String × Change) :
    changed old (changes ++ [change]) = (changed old changes).set change.1
      (change.2.apply ((changed old changes).read change.1)) :=
  List.foldl_concat _ old change changes

/-- A field after some changes: as the last change of it has it, or as before. -/
theorem read_changed_eq_null_iff {old : Fields} {key : String} (h : old.read key ≠ .null)
    (changes : List (String × Change)) : (changed old changes).read key = .null ↔
      (changes.reverse.find? (·.1 = key)).map (·.2) = some (.set .null) := by
  induction changes using List.reverseRecOn with
  | nil => simpa [changed] using h
  | append_singleton changes change ih =>
    obtain ⟨key', change⟩ := change
    rw [changed_concat, Fields.read_set, List.reverse_concat, List.find?_cons]
    by_cases hkey : key = key'
    · subst hkey
      cases change with
      | set value => simp [Change.apply_set]
      | arrayRemove value =>
        have hne := Change.apply_arrayRemove_ne_null value ((changed old changes).read key)
        simpa using hne
    · simpa [hkey, Ne.symm hkey] using ih

/-- A field that is not `null` becomes `null` exactly by a write that says so. -/
theorem read_result_eq_null_iff {write : Write} {old fields : Fields} {key : String}
    (h : old.read key ≠ .null) (hresult : write.result (some old) = .ok (some fields)) :
    fields.read key = .null ↔ write.Nulls key := by
  cases write with
  | set path new =>
    obtain rfl := Option.some.inj (Except.ok.inj hresult)
    rfl
  | merge path new =>
    obtain rfl := Option.some.inj (Except.ok.inj hresult)
    obtain ⟨value, hvalue⟩ : ∃ value, old.get key = some value := by
      refine Option.ne_none_iff_exists'.mp fun hnone => h ?_
      rw [Fields.read, hnone]
      rfl
    have hold : value ≠ .null := by simpa [Fields.read, hvalue] using h
    rw [Option.getD_some, Fields.read, get_merged, hvalue, Nulls]
    cases (Assoc.ofList new).get key <;> simp [hold]
  | update path changes =>
    obtain rfl := Option.some.inj (Except.ok.inj hresult)
    exact read_changed_eq_null_iff h changes
  | delete path => cases hresult

end Write

/-! ## Clients and sweeps -/

/-- The documents, and the sweeps that are running. -/
structure Sweeper where
  cloud : Cloud
  sweeps : List (AdminProgram Nat)

/-- A client's write, a new sweep, or the next operation of the `i`-th sweep. -/
inductive SweeperEvent where
  | write (uid : String) (write : Write)
  | sweep (cutoff : Int)
  | advance (i : Nat)

/-- The note is stored as a tombstone. -/
def Tombstoned (pieceId noteId : String) (cloud : Cloud) : Prop :=
  ∃ note, cloud.doc (.notes pieceId noteId) = some note ∧ note.read "deletedAt" ≠ .null

/-- The note has been hard-deleted. -/
def NoteGone (pieceId noteId : String) (cloud : Cloud) : Prop :=
  cloud.doc (.notes pieceId noteId) = none

namespace Sweeper

def step (s : Sweeper) : SweeperEvent → Option Sweeper
  | .write uid write =>
    if s.cloud.permitsWrite (some uid) write then
      match s.cloud.commit [write] with
      | .ok cloud => some { s with cloud := cloud }
      | .error _ => none
    else none
  | .sweep cutoff => some { s with sweeps := s.sweeps ++ [sweepTombstonesBefore cutoff] }
  | .advance i =>
    match s.sweeps[i]? with
    | none => none
    | some sweep =>
      let next := sweep.advance Operation.perform s.cloud
      some ⟨next.2, s.sweeps.set i next.1⟩

variable {pieceId noteId : String} {s t : Sweeper}

/-- The author of a note that is a tombstone writes to it a `deletedAt` of `null`, and nothing else
that differs from what is stored. -/
def Undeletes (pieceId noteId : String) (s : Sweeper) : SweeperEvent → Prop
  | .write uid write => write.path = .notes pieceId noteId ∧ write.Nulls "deletedAt" ∧
      ∃ note, s.cloud.doc (.notes pieceId noteId) = some note ∧ note.read "deletedAt" ≠ .null ∧
        note.get "authorId" = some (.string uid) ∧
        ∀ fields, write.result (some note) = .ok (some fields) →
          ∀ key, key ≠ "deletedAt" → fields.get key = note.get key
  | _ => False

theorem write_step {uid : String} {write : Write} :
    step s (.write uid write) = some t ↔ s.cloud.permitsWrite (some uid) write ∧
      ∃ fields, write.result (s.cloud.doc write.path) = .ok fields ∧
        t = { s with cloud := s.cloud.store write.path fields } := by
  simp only [step]
  split_ifs with h
  · cases hc : s.cloud.commit [write] with
    | error failure =>
      have hnone : ∀ fields, write.result (s.cloud.doc write.path) ≠ .ok fields := by
        intro fields hfields
        have := Cloud.commit_singleton.mpr ⟨fields, hfields, rfl⟩
        simp [hc] at this
      simp [hnone]
    | ok cloud =>
      obtain ⟨fields, hfields, rfl⟩ := Cloud.commit_singleton.mp hc
      simp [h, hfields, eq_comm]
  · simp [h]

/-- A sweep removes notes, and leaves the others as they are. -/
theorem doc_perform_of_sweeps {op : Operation} (h : Sweeps op) (c : Cloud) (path : DocPath) :
    (op.perform c).2.doc path = c.doc path ∨ (op.perform c).2.doc path = none := by
  cases op with
  | get path => exact .inl rfl
  | list query => exact .inl rfl
  | commit writes =>
    obtain ⟨deleted, rfl⟩ := h
    rw [Operation.perform_write]
    simp only [Write.result, Write.path, Cloud.doc_store]
    split_ifs
    · exact .inr rfl
    · exact .inl rfl
  | transaction body => exact h.elim

theorem sweeps_step {event : SweeperEvent} (h : ∀ sweep ∈ s.sweeps,
    sweep.Issues (fun _ _ => True) Sweeps) (hstep : step s event = some t) :
    ∀ sweep ∈ t.sweeps, sweep.Issues (fun _ _ => True) Sweeps := by
  cases event with
  | write uid write =>
    obtain ⟨-, fields, -, rfl⟩ := write_step.mp hstep
    exact h
  | sweep cutoff =>
    obtain rfl := Option.some.inj hstep
    intro sweep hsweep
    obtain hsweep | hsweep := List.mem_append.mp hsweep
    · exact h sweep hsweep
    · obtain rfl := List.mem_singleton.mp hsweep
      exact issues_sweepTombstonesBefore cutoff
  | advance i =>
    simp only [step] at hstep
    split at hstep
    · cases hstep
    · rename_i sweep hi
      obtain rfl := Option.some.inj hstep
      intro other hother
      obtain hother | rfl := List.mem_or_eq_of_mem_set hother
      · exact h other hother
      · exact (h sweep (List.mem_of_getElem? hi)).advance Operation.perform s.cloud
          fun _ _ _ _ => trivial

/-- What the rules let a client write to a tombstone keeps it one, unless the client undeletes it. -/
theorem undeletes_iff {uid : String} {write : Write} {note fields : Fields}
    (hpath : write.path = .notes pieceId noteId)
    (hnote : s.cloud.doc (.notes pieceId noteId) = some note) (hdeleted : note.read "deletedAt" ≠ .null)
    (hresult : write.result (some note) = .ok (some fields)) :
    Undeletes pieceId noteId s (.write uid write) ↔
      s.cloud.permitsWrite (some uid) write ∧ fields.read "deletedAt" = .null := by
  have hpermits : s.cloud.permitsWrite (some uid) write ↔ note.get "authorId" = some (.string uid) ∧
      ∀ key, key ≠ "deletedAt" → fields.get key = note.get key := by
    have hrule : s.cloud.permitsWrite (some uid) write ↔
        (notesRule (some uid) (some note) (s.cloud.doc (.pieces pieceId)) (.update fields)).Holds := by
      simp only [Cloud.permitsWrite, hpath, hnote, hresult, Option.isSome_some, if_pos]
      simp only [Cloud.permits, Cloud.verdict, hnote]
    rw [hrule, holds_notesRule_update, holds_affectsOnly, dataField_some]
    simp only [List.mem_singleton]
  rw [hpermits, Write.read_result_eq_null_iff hdeleted hresult]
  constructor
  · rintro ⟨-, hnulls, note', hnote', -, hauthor, hothers⟩
    obtain rfl := Option.some.inj (hnote.symm.trans hnote')
    exact ⟨⟨hauthor, hothers fields hresult⟩, hnulls⟩
  · rintro ⟨⟨hauthor, hothers⟩, hnulls⟩
    refine ⟨hpath, hnulls, note, hnote, hdeleted, hauthor, fun fields' hresult' => ?_⟩
    obtain rfl := Option.some.inj (Except.ok.inj (hresult.symm.trans hresult'))
    exact hothers

/-- One step ends a tombstone exactly when its author undeletes it. -/
theorem tombstoned_step {event : SweeperEvent} (h : ∀ sweep ∈ s.sweeps,
    sweep.Issues (fun _ _ => True) Sweeps) :
    (∀ t, step s event = some t → Tombstoned pieceId noteId s.cloud →
      Tombstoned pieceId noteId t.cloud ∨ NoteGone pieceId noteId t.cloud) ↔
        ¬Undeletes pieceId noteId s event := by
  cases event with
  | write uid write =>
    constructor
    · intro hlasts hundeletes
      obtain ⟨hpath, -, note, hnote, hdeleted, -⟩ := id hundeletes
      obtain ⟨fields, hresult⟩ : ∃ fields, write.result (some note) = .ok (some fields) := by
        obtain ⟨-, hnulls, -⟩ := hundeletes
        cases write with
        | delete path => exact hnulls.elim
        | _ => exact ⟨_, rfl⟩
      obtain ⟨hpermits, hnull⟩ := (undeletes_iff hpath hnote hdeleted hresult).mp hundeletes
      have hdoc : s.cloud.doc write.path = some note := by rw [hpath, hnote]
      obtain ⟨note', hnote', hdeleted'⟩ | hgone := hlasts _
        (write_step.mpr ⟨hpermits, some fields, by rw [hdoc, hresult], rfl⟩) ⟨note, hnote, hdeleted⟩
      · dsimp only at hnote'
        rw [hpath, Cloud.doc_store_self] at hnote'
        obtain rfl := Option.some.inj hnote'
        exact hdeleted' hnull
      · rw [NoteGone, hpath, Cloud.doc_store_self] at hgone
        cases hgone
    · rintro hkeeps t hstep ⟨note, hnote, hdeleted⟩
      obtain ⟨hpermits, fields, hresult, rfl⟩ := write_step.mp hstep
      by_cases hpath : write.path = .notes pieceId noteId
      · cases fields with
        | none =>
          right
          rw [NoteGone, hpath, Cloud.doc_store_self]
        | some fields =>
          left
          rw [hpath, hnote] at hresult
          refine ⟨fields, by rw [hpath, Cloud.doc_store_self], fun hnull => hkeeps ?_⟩
          exact (undeletes_iff hpath hnote hdeleted hresult).mpr ⟨hpermits, hnull⟩
      · exact .inl ⟨note, (s.cloud.doc_store_of_ne (Ne.symm hpath) _).trans hnote, hdeleted⟩
  | sweep cutoff =>
    refine iff_of_true ?_ not_false
    intro t ht htomb
    obtain rfl := Option.some.inj ht
    exact .inl htomb
  | advance i =>
    refine iff_of_true ?_ not_false
    intro t ht htomb
    simp only [step] at ht
    split at ht
    · cases ht
    rename_i sweep hi
    obtain rfl := Option.some.inj ht
    cases hsweep : sweep with
    | done n => exact .inl htomb
    | fail failure => exact .inl htomb
    | call op k =>
      dsimp only
      rw [advance_call_snd]
      have hop := (h sweep (List.mem_of_getElem? hi)).next (congrArg next? hsweep)
      obtain hsame | hgone := doc_perform_of_sweeps hop s.cloud (.notes pieceId noteId)
      · obtain ⟨note, hnote, hdeleted⟩ := htomb
        exact .inl ⟨note, hsame.trans hnote, hdeleted⟩
      · exact .inr hgone

/-- A tombstone lasts until it is swept exactly in the runs in which its author never undeletes it. -/
theorem tombstoned_iff (pieceId noteId : String) (cloud : Cloud) (events : List SweeperEvent) :
    (∀ es fs t, events = es ++ fs → run step ⟨cloud, []⟩ es = some t →
      Tombstoned pieceId noteId t.cloud →
        Until step (fun u => Tombstoned pieceId noteId u.cloud)
          (fun u => NoteGone pieceId noteId u.cloud) t fs) ↔
      EachStep step (fun s event => ¬Undeletes pieceId noteId s event) ⟨cloud, []⟩ events := by
  refine (lasts_iff_eachStep ?_).trans (EachStep.congr_of_invariant
    (fun _ _ _ h ht => sweeps_step h ht) (fun _ _ h => tombstoned_step h)
    (fun sweep hsweep => nomatch hsweep))
  rintro u ⟨note, hnote, -⟩ hgone
  cases hnote.symm.trans hgone

/-! ## A note that comes back -/

/-- `bob` has deleted his note on `ann`'s piece. -/
def bobsTombstone : Cloud :=
  (Cloud.empty.store (.pieces "piece") (some (Assoc.ofList [("ownerId", .string "ann"),
    ("participantIds", .array [.string "ann", .string "bob"])]))).store (.notes "piece" "note")
    (some (Assoc.ofList [("authorId", .string "bob"), ("deletedAt", .timestamp 1)]))

/-- He takes the deletion back. -/
def bobRevives : List SweeperEvent :=
  [.write "bob" (.update (.notes "piece" "note") [("deletedAt", .set .null)])]

theorem tombstone_revived : Tombstoned "piece" "note" bobsTombstone ∧
    ¬Until step (fun u => Tombstoned "piece" "note" u.cloud)
      (fun u => NoteGone "piece" "note" u.cloud) ⟨bobsTombstone, []⟩ bobRevives := by
  have htomb : (bobsTombstone.doc (.notes "piece" "note")).any (fun note =>
      note.read "deletedAt" ≠ .null) = true := by decide +kernel
  obtain ⟨note, hnote, hdeleted⟩ := (Option.any_eq_true _ _).mp htomb
  refine ⟨⟨note, hnote, of_decide_eq_true hdeleted⟩, ?_⟩
  have hbob : (run step ⟨bobsTombstone, []⟩ bobRevives).any (fun u =>
      (u.cloud.doc (.notes "piece" "note")).any fun note =>
        note.read "deletedAt" = .null) = true := by decide +kernel
  obtain ⟨u, hrun, hbob⟩ := (Option.any_eq_true _ _).mp hbob
  obtain ⟨note', hnote', hlive⟩ := (Option.any_eq_true _ _).mp hbob
  rintro (hgone | ⟨-, hlasts⟩)
  · cases hnote.symm.trans hgone
  obtain ⟨t, ht, hr⟩ := run_cons_eq_some.mp hrun
  obtain rfl := Option.some.inj hr
  obtain ⟨note'', hnote'', hdeleted'⟩ | hgone := hlasts _ ht
  · obtain rfl := Option.some.inj (hnote'.symm.trans hnote'')
    exact hdeleted' (of_decide_eq_true hlive)
  · cases hnote'.symm.trans hgone

end Sweeper

end Duet
