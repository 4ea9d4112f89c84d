import Duet.Lib.Program
import Duet.Lib.Value
import Mathlib.Data.List.Nodup

/-!
# The cloud documents

Firestore as the app and its functions use it: documents by path, the queries they run, and the
operations they issue. A batch is one `commit`; a transaction reads and then commits in one step.

## Main definitions

* `Cloud` — the documents, one for each path.
* `Write`, `Cloud.commit` — writes, applied all or none.
* `Operation`, `Operation.perform` — what one call of the client or of the Admin SDK does.
-/

namespace Duet

open Lib

/-- A map value. -/
def mapOf (entries : List (String × Value)) : Value := .map (Assoc.ofList entries)

/-- The path of a document. Each id is taken for one segment of it: not empty, and without a slash.
The code puts ids into the text of a path, where another text would name another document. -/
inductive DocPath where
  | usersByEmail (emailKey : String)
  | deviceTokens (uid : String)
  | userInbox (uid messageId : String)
  | pieces (pieceId : String)
  | layers (pieceId uid : String)
  | notes (pieceId noteId : String)
  | reads (pieceId uid : String)
  | rateLimits (uid : String)
  deriving DecidableEq, Repr

/-- The segments of the path, which order the documents. -/
def DocPath.segments : DocPath → List String
  | usersByEmail emailKey => ["usersByEmail", emailKey]
  | deviceTokens uid => ["deviceTokens", uid]
  | userInbox uid messageId => ["userInbox", uid, "messages", messageId]
  | pieces pieceId => ["pieces", pieceId]
  | layers pieceId uid => ["pieces", pieceId, "layers", uid]
  | notes pieceId noteId => ["pieces", pieceId, "notes", noteId]
  | reads pieceId uid => ["pieces", pieceId, "reads", uid]
  | rateLimits uid => ["rateLimits", uid]

instance : LT DocPath := ⟨fun p q => p.segments < q.segments⟩

instance : DecidableLT DocPath := fun p q => inferInstanceAs (Decidable (p.segments < q.segments))

/-- The documents of the cloud, one for each path. -/
structure Cloud where
  docs : Assoc DocPath Fields
  nodup : docs.NodupKeys

namespace Cloud

def empty : Cloud := ⟨[], List.nodup_nil⟩

/-- The document at a path. -/
def doc (cloud : Cloud) (path : DocPath) : Option Fields := cloud.docs.get path

def put (cloud : Cloud) (path : DocPath) (fields : Fields) : Cloud where
  docs := (cloud.docs.erase path).set path fields
  nodup := Assoc.nodupKeys_set (Assoc.nodupKeys_erase cloud.nodup path)
    (Assoc.not_mem_keys_erase cloud.docs path) fields

def remove (cloud : Cloud) (path : DocPath) : Cloud where
  docs := cloud.docs.erase path
  nodup := Assoc.nodupKeys_erase cloud.nodup path

/-- The document at a path replaced, or removed. -/
def store (cloud : Cloud) (path : DocPath) : Option Fields → Cloud
  | some fields => cloud.put path fields
  | none => cloud.remove path

@[simp] theorem doc_empty (path : DocPath) : empty.doc path = none := rfl

theorem doc_store (cloud : Cloud) (path path' : DocPath) (fields : Option Fields) :
    (cloud.store path fields).doc path' = if path' = path then fields else cloud.doc path' := by
  cases fields with
  | none => exact Assoc.get_erase _ _ _
  | some fields =>
    change Assoc.get ((cloud.docs.erase path).set path fields) path' = _
    rw [Assoc.get_set]
    split_ifs with h
    · rfl
    · exact Assoc.get_erase_of_ne _ h

@[simp] theorem doc_store_self (cloud : Cloud) (path : DocPath) (fields : Option Fields) :
    (cloud.store path fields).doc path = fields := by
  rw [doc_store, if_pos rfl]

theorem doc_store_of_ne (cloud : Cloud) {path path' : DocPath} (h : path' ≠ path)
    (fields : Option Fields) : (cloud.store path fields).doc path' = cloud.doc path' := by
  rw [doc_store, if_neg h]

end Cloud

/-! ## Writes -/

/-- Why a call failed, at the client or in a function. -/
inductive CloudFailure where
  | httpsError (code message : String)
  | notFound (path : DocPath)
  | permissionDenied
  | stateError (message : String)
  | ownershipViolation (resourceId : String) (reason : Option String)
  | typeError
  | unavailable
  deriving DecidableEq, Repr

/-- The new value of a field in an `update`. -/
inductive Change where
  | set (value : Value)
  | arrayRemove (value : Value)
  deriving DecidableEq, Repr

/-- The field after the change; a field that is not an array becomes an empty one. -/
def Change.apply : Change → Value → Value
  | set value, _ => value
  | arrayRemove value, .array items => .array (items.filter fun item => item ≠ value)
  | arrayRemove _, _ => .array []

/-- One write: `set`, `set` with `merge: true`, `update` and `delete`. -/
inductive Write where
  | set (path : DocPath) (fields : Fields)
  | merge (path : DocPath) (fields : Fields)
  | update (path : DocPath) (changes : List (String × Change))
  | delete (path : DocPath)
  deriving DecidableEq, Repr

namespace Write

def path : Write → DocPath
  | set path _ | merge path _ | update path _ | delete path => path

/-- The fields of a document with some of them changed. -/
def changed (fields : Fields) (changes : List (String × Change)) : Fields :=
  changes.foldl (fun fields change => fields.set change.1 (change.2.apply (fields.read change.1)))
    fields

/-- The document after the write; an `update` of a missing document fails. -/
def result : Write → Option Fields → Except CloudFailure (Option Fields)
  | set _ fields, _ => .ok (some fields)
  | merge _ fields, old =>
    .ok (some (fields.foldl (fun merged field => merged.set field.1 field.2) (old.getD [])))
  | update path _, none => .error (.notFound path)
  | update _ changes, some old => .ok (some (changed old changes))
  | delete _, _ => .ok none

end Write

/-- The documents after the writes, in order; when one of them fails none is applied. -/
def Cloud.commit (cloud : Cloud) : List Write → Except CloudFailure Cloud
  | [] => .ok cloud
  | write :: writes => do
    let fields ← write.result (cloud.doc write.path)
    (cloud.store write.path fields).commit writes

/-- A single write stores its result. -/
theorem Cloud.commit_singleton {cloud cloud' : Cloud} {write : Write} :
    cloud.commit [write] = .ok cloud' ↔
      ∃ fields, write.result (cloud.doc write.path) = .ok fields ∧
        cloud' = cloud.store write.path fields := by
  simp only [commit]
  rcases write.result (cloud.doc write.path) with e | fields
  · simp [bind, Except.bind]
  · simp [bind, Except.bind, eq_comm]

/-! ### Batches -/

theorem Cloud.commit_cons_of_ok {cloud : Cloud} {write : Write} {fields : Option Fields}
    (h : write.result (cloud.doc write.path) = .ok fields) (writes : List Write) :
    cloud.commit (write :: writes) = (cloud.store write.path fields).commit writes := by
  rw [commit, h]
  rfl

@[simp] theorem Cloud.commit_set (cloud : Cloud) (path : DocPath) (fields : Fields) :
    cloud.commit [.set path fields] = .ok (cloud.store path (some fields)) := rfl

theorem Cloud.commit_append (cloud : Cloud) (writes writes' : List Write) :
    cloud.commit (writes ++ writes') =
      (cloud.commit writes).bind fun cloud' => cloud'.commit writes' := by
  induction writes generalizing cloud with
  | nil => rfl
  | cons write writes ih =>
    rw [List.cons_append, commit, commit]
    cases write.result (cloud.doc write.path) with
    | error failure => rfl
    | ok fields => exact ih _

/-- A batch of deletes. -/
theorem Cloud.commit_deletes (cloud : Cloud) (paths : List DocPath) :
    ∃ cloud', cloud.commit (paths.map .delete) = .ok cloud' ∧
      ∀ path, cloud'.doc path = if path ∈ paths then none else cloud.doc path := by
  induction paths generalizing cloud with
  | nil => exact ⟨cloud, rfl, by simp⟩
  | cons path paths ih =>
    obtain ⟨cloud', hcommit, hdoc⟩ := ih (cloud.store path none)
    refine ⟨cloud', ?_, fun path' => ?_⟩
    · rw [List.map_cons, commit_cons_of_ok (show Write.result (.delete path) _ = .ok none from rfl)]
      exact hcommit
    · rw [hdoc path', doc_store]
      grind

/-- A batch of sets: of several on one document the last one counts. -/
theorem Cloud.commit_sets_last (cloud : Cloud) (entries : List (DocPath × Fields)) :
    ∃ cloud', cloud.commit (entries.map fun e => .set e.1 e.2) = .ok cloud' ∧
      (∀ path ∈ entries.map (·.1), ∃ fields, (path, fields) ∈ entries ∧
        cloud'.doc path = some fields) ∧
      ∀ path, path ∉ entries.map (·.1) → cloud'.doc path = cloud.doc path := by
  induction entries generalizing cloud with
  | nil => exact ⟨cloud, rfl, by simp, fun _ _ => rfl⟩
  | cons e entries ih =>
    obtain ⟨path, fields⟩ := e
    obtain ⟨cloud', hcommit, hset, hkept⟩ := ih (cloud.store path (some fields))
    refine ⟨cloud', ?_, ?_, ?_⟩
    · have hresult : Write.result (.set path fields) (cloud.doc path) = .ok (some fields) := rfl
      rw [List.map_cons, commit_cons_of_ok hresult]
      exact hcommit
    · intro path' hpath'
      by_cases hlater : path' ∈ entries.map (·.1)
      · obtain ⟨fields', hmem, hdoc⟩ := hset path' hlater
        exact ⟨fields', List.mem_cons_of_mem _ hmem, hdoc⟩
      · obtain rfl : path' = path := by simpa [hlater] using hpath'
        exact ⟨fields, List.mem_cons_self, by rw [hkept _ hlater, doc_store_self]⟩
    · intro path' hpath'
      rw [List.map_cons, List.mem_cons, not_or] at hpath'
      rw [hkept path' hpath'.2, doc_store_of_ne _ hpath'.1]

/-- A batch of sets on different documents. -/
theorem Cloud.commit_sets (cloud : Cloud) {entries : List (DocPath × Fields)}
    (h : (entries.map (·.1)).Nodup) :
    ∃ cloud', cloud.commit (entries.map fun e => .set e.1 e.2) = .ok cloud' ∧
      (∀ path fields, (path, fields) ∈ entries → cloud'.doc path = some fields) ∧
      ∀ path, path ∉ entries.map (·.1) → cloud'.doc path = cloud.doc path := by
  obtain ⟨cloud', hcommit, hset, hkept⟩ := cloud.commit_sets_last entries
  refine ⟨cloud', hcommit, fun path fields hmem => ?_, hkept⟩
  obtain ⟨fields', hmem', hdoc⟩ := hset path (List.mem_map_of_mem hmem)
  obtain heq := List.inj_on_of_nodup_map h hmem' hmem rfl
  rw [hdoc, (Prod.mk.inj heq).2]

/-! ## Operations -/

/-- The queries that the app and its functions run. -/
inductive Query where
  | directoryOf (uid : String)
  | inboxOf (uid : String)
  | piecesOf (uid : String)
  | layersOf (pieceId : String)
  | notesOf (pieceId : String)
  | notesBy (pieceId authorId : String)
  | deletedUntil (cutoff : Int)
  | descendantsOf (pieceId : String)
  deriving DecidableEq, Repr

/-- The value is an array with the element. -/
def arrayContains (value element : Value) : Bool :=
  match value with
  | .array items => items.contains element
  | _ => false

/-- The document is a result of the query. -/
def Query.selects : Query → DocPath → Fields → Bool
  | directoryOf uid, .usersByEmail _, fields => fields.read "uid" == .string uid
  | inboxOf uid, .userInbox uid' _, _ => uid' == uid
  | piecesOf uid, .pieces _, fields => arrayContains (fields.read "participantIds") (.string uid)
  | layersOf pieceId, .layers pieceId' _, _ => pieceId' == pieceId
  | notesOf pieceId, .notes pieceId' _, _ => pieceId' == pieceId
  | notesBy pieceId authorId, .notes pieceId' _, fields =>
    pieceId' == pieceId && fields.read "authorId" == .string authorId
  -- whether a range filter surfaces an explicit null depends on the version of the store
  | deletedUntil cutoff, .notes _ _, fields =>
    match fields.get "deletedAt" with
    | some (.timestamp deletedAt) => deletedAt ≤ cutoff
    | some .null => true
    | _ => false
  | descendantsOf pieceId, .layers pieceId' _, _ => pieceId' == pieceId
  | descendantsOf pieceId, .notes pieceId' _, _ => pieceId' == pieceId
  | descendantsOf pieceId, .reads pieceId' _, _ => pieceId' == pieceId
  | _, _, _ => false

/-- The results of a query, in the order of their paths. -/
def Cloud.list (cloud : Cloud) (query : Query) : List (DocPath × Fields) :=
  cloud.docs.filter fun entry => query.selects entry.1 entry.2

theorem Cloud.mem_list {cloud : Cloud} {query : Query} {path : DocPath} {fields : Fields} :
    (path, fields) ∈ cloud.list query ↔
      cloud.doc path = some fields ∧ query.selects path fields = true := by
  rw [list, List.mem_filter, Assoc.mem_iff_get cloud.nodup]
  rfl

theorem Cloud.nodup_list (cloud : Cloud) {query : Query} : (cloud.list query).Nodup :=
  (List.Nodup.of_map Prod.fst cloud.nodup).filter _

/-- The body of a transaction: reads, then writes. -/
inductive Transaction where
  | commit (writes : List Write)
  | abort (failure : CloudFailure)
  | get (path : DocPath) (k : Option Fields → Transaction)

/-- Run the body of a transaction in one step. -/
def Transaction.run (cloud : Cloud) : Transaction → Except CloudFailure Cloud
  | commit writes => cloud.commit writes
  | abort failure => .error failure
  | get path k => (k (cloud.doc path)).run cloud

/-- What a program asks of Firestore. -/
inductive Operation where
  | get (path : DocPath)
  | list (query : Query)
  | commit (writes : List Write)
  | transaction (body : Transaction)

/-- The response to an operation. -/
def Operation.Response : Operation → Type
  | get _ => Option Fields
  | list _ => List (DocPath × Fields)
  | commit _ => Unit
  | transaction _ => Unit

/-- The outcome of a commit, with the documents it leaves. -/
def Cloud.settle (cloud : Cloud) : Except CloudFailure Cloud → Except CloudFailure Unit × Cloud
  | .ok cloud' => (.ok (), cloud')
  | .error failure => (.error failure, cloud)

theorem Cloud.settle_ok {cloud cloud' : Cloud} {outcome : Except CloudFailure Cloud}
    (h : outcome = .ok cloud') : cloud.settle outcome = (.ok (), cloud') := by
  rw [h]
  rfl

/-- Perform an operation. -/
def Operation.perform : Interpreter Operation Operation.Response CloudFailure Cloud
  | .get path, cloud => (.ok (cloud.doc path), cloud)
  | .list query, cloud => (.ok (cloud.list query), cloud)
  | .commit writes, cloud => cloud.settle (cloud.commit writes)
  | .transaction body, cloud => cloud.settle (body.run cloud)

/-- A single write is stored, or fails and leaves the documents alone. -/
theorem Operation.perform_write (write : Write) (cloud : Cloud) :
    (Operation.perform (.commit [write]) cloud).2 =
      match write.result (cloud.doc write.path) with
      | .ok fields => cloud.store write.path fields
      | .error _ => cloud := by
  change (cloud.settle (cloud.commit [write])).2 = _
  rcases hc : cloud.commit [write] with failure | cloud'
  · rcases hr : write.result (cloud.doc write.path) with failure' | fields
    · rfl
    · have := Cloud.commit_singleton.mpr ⟨fields, hr, rfl⟩
      simp [hc] at this
  · obtain ⟨fields, hr, rfl⟩ := Cloud.commit_singleton.mp hc
    rw [hr]
    rfl

/-! ## Frames -/

/-- Whatever is stored, the transaction writes to documents of `paths` alone. -/
def Transaction.OnlyWrites (paths : DocPath → Prop) : Transaction → Prop
  | commit writes => ∀ write ∈ writes, paths write.path
  | abort _ => True
  | get _ k => ∀ fields, (k fields).OnlyWrites paths

/-- The operation writes to documents of `paths` alone. -/
def Operation.OnlyWrites (paths : DocPath → Prop) : Operation → Prop
  | .get _ | .list _ => True
  | .commit writes => ∀ write ∈ writes, paths write.path
  | .transaction body => body.OnlyWrites paths

theorem Transaction.OnlyWrites.mono {paths paths' : DocPath → Prop}
    (hpaths : ∀ path, paths path → paths' path) {body : Transaction} (h : body.OnlyWrites paths) :
    body.OnlyWrites paths' := by
  induction body with
  | commit writes => exact fun write hwrite => hpaths _ (h write hwrite)
  | abort failure => trivial
  | get path k ih => exact fun fields => ih fields (h fields)

section

variable {paths : DocPath → Prop} {cloud cloud' : Cloud} {path : DocPath}

theorem Cloud.doc_commit_of_not {writes : List Write} (h : ∀ write ∈ writes, paths write.path)
    (hpath : ¬paths path) (hok : cloud.commit writes = .ok cloud') :
    cloud'.doc path = cloud.doc path := by
  induction writes generalizing cloud with
  | nil =>
    obtain rfl := Except.ok.inj hok
    rfl
  | cons write writes ih =>
    rw [commit] at hok
    cases hr : write.result (cloud.doc write.path) with
    | error failure => simp [hr, bind, Except.bind] at hok
    | ok fields =>
      rw [hr] at hok
      rw [ih (fun w hw => h w (List.mem_cons_of_mem _ hw)) hok]
      apply cloud.doc_store_of_ne
      rintro rfl
      exact hpath (h write (by simp))

theorem Transaction.doc_run_of_not {body : Transaction} (h : body.OnlyWrites paths)
    (hpath : ¬paths path) (hok : body.run cloud = .ok cloud') :
    cloud'.doc path = cloud.doc path := by
  induction body with
  | commit writes => exact Cloud.doc_commit_of_not h hpath hok
  | abort failure => cases hok
  | get path' k ih => exact ih _ (h _) hok

theorem Cloud.doc_settle {outcome : Except CloudFailure Cloud}
    (h : ∀ cloud', outcome = .ok cloud' → cloud'.doc path = cloud.doc path) :
    (cloud.settle outcome).2.doc path = cloud.doc path := by
  cases outcome with
  | error failure => rfl
  | ok cloud' => exact h cloud' rfl

/-- What an operation does not write to stays as it is. -/
theorem Operation.doc_perform_of_not {op : Operation} (paths : DocPath → Prop)
    (h : op.OnlyWrites paths) (hpath : ¬paths path) : (op.perform cloud).2.doc path = cloud.doc path := by
  cases op with
  | get _ => rfl
  | list _ => rfl
  | commit writes => exact Cloud.doc_settle fun _ hok => Cloud.doc_commit_of_not h hpath hok
  | transaction body => exact Cloud.doc_settle fun _ hok => Transaction.doc_run_of_not h hpath hok

end

/-- A program of the Admin SDK, or of a client. -/
abbrev AdminProgram (α : Type) := Program Operation Operation.Response CloudFailure α

def getDoc (path : DocPath) : AdminProgram (Option Fields) := Program.perform (Operation.get path)

def listDocs (query : Query) : AdminProgram (List (DocPath × Fields)) :=
  Program.perform (Operation.list query)

def commit (writes : List Write) : AdminProgram Unit := Program.perform (Operation.commit writes)

def transaction (body : Transaction) : AdminProgram Unit :=
  Program.perform (Operation.transaction body)

@[simp] theorem exec_getDoc (path : DocPath) (cloud : Cloud) :
    (getDoc path).exec Operation.perform cloud = (.ok (cloud.doc path), cloud) := rfl

@[simp] theorem exec_listDocs (query : Query) (cloud : Cloud) :
    (listDocs query).exec Operation.perform cloud = (.ok (cloud.list query), cloud) := rfl

theorem exec_commit (writes : List Write) (cloud : Cloud) :
    (commit writes).exec Operation.perform cloud = cloud.settle (cloud.commit writes) :=
  Program.exec_perform Operation.perform _ _

theorem exec_transaction (body : Transaction) (cloud : Cloud) :
    (transaction body).exec Operation.perform cloud = cloud.settle (body.run cloud) :=
  Program.exec_perform Operation.perform _ _

section

variable {α : Type} {ok : Operation → Cloud → Prop} {cloud : Cloud}

@[simp] theorem eachCall_getDoc_bind {path : DocPath} {f : Option Fields → AdminProgram α} :
    (getDoc path >>= f).EachCall Operation.perform ok cloud ↔
      ok (.get path) cloud ∧ (f (cloud.doc path)).EachCall Operation.perform ok cloud := by
  refine and_congr_right fun _ => ⟨fun h => h _ _ rfl, fun h a t hread => ?_⟩
  obtain ⟨hvalue, rfl⟩ := Prod.mk.inj hread
  obtain rfl := Except.ok.inj hvalue
  exact h

@[simp] theorem eachCall_listDocs_bind {query : Query}
    {f : List (DocPath × Fields) → AdminProgram α} :
    (listDocs query >>= f).EachCall Operation.perform ok cloud ↔
      ok (.list query) cloud ∧ (f (cloud.list query)).EachCall Operation.perform ok cloud := by
  refine and_congr_right fun _ => ⟨fun h => h _ _ rfl, fun h a t hread => ?_⟩
  obtain ⟨hvalue, rfl⟩ := Prod.mk.inj hread
  obtain rfl := Except.ok.inj hvalue
  exact h

@[simp] theorem eachCall_commit {writes : List Write} :
    (commit writes).EachCall Operation.perform ok cloud ↔ ok (.commit writes) cloud :=
  Program.eachCall_perform

@[simp] theorem eachCall_transaction {body : Transaction} :
    (transaction body).EachCall Operation.perform ok cloud ↔ ok (.transaction body) cloud :=
  Program.eachCall_perform

end

end Duet
