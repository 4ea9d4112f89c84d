import Duet.Cloud.Documents
import Duet.Lib.Verdict

/-!
# `firestore.rules`

The rules, one definition for each `match` block, over the document as it is stored, the document
as it would be, and the parent piece. `resource` is `null` when the document is missing, so that
reading a field of it makes the evaluation fail.

## Main definitions

* `piecesRule`, `layersRule`, `notesRule`, … — the blocks of `firestore.rules`.
* `Cloud.permits` — a request of one method on one document.
* `Operation.Permitted` — every read and write of an operation is permitted.
-/

namespace Duet

open Lib Verdict

/-- What a request does to one document. `fields` is `request.resource.data`. -/
inductive Method where
  | get
  | list
  | create (fields : Fields)
  | update (fields : Fields)
  | delete
  deriving DecidableEq, Repr

/-- `request.auth`, by its uid. -/
abbrev Auth := Option String

/-- `request.auth != null`. -/
def signedIn (auth : Auth) : Verdict := some auth.isSome

/-- `request.auth.uid`. -/
def Auth.uid (auth : Auth) : Option Value := Option.map Value.string auth

/-- `data.<key>`: reading a missing field fails. -/
def dataField (data : Option Fields) (key : String) : Option Value := data.bind fun f => f.get key

/-- `element in collection`. -/
def isIn (element collection : Option Value) : Verdict :=
  match element, collection with
  | some element, some (.array items) => some (items.contains element)
  | some (.string key), some (.map fields) => some (fields.any fun field => field.1 == key)
  | _, _ => none

/-- `value.size()`. -/
def sizeOf? : Option Value → Option Nat
  | some (.array items) => some items.length
  | some (.map fields) => some fields.length
  | some (.string s) => some s.length
  | _ => none

/-- `new.diff(old).affectedKeys().hasOnly(keys)`. -/
def affectsOnly (keys : List String) (old new : Option Fields) : Verdict :=
  match old, new with
  | some old, some new =>
    some (((old.map (·.1)) ++ (new.map (·.1))).all fun key =>
      keys.contains key || decide (old.get key = new.get key))
  | _, _ => none

def deny : Verdict := some false

/-! ## The `match` blocks -/

section

variable (auth : Auth) (resource : Option Fields)

/-- `match /usersByEmail/{emailKey}`. -/
def usersByEmailRule : Method → Verdict
  | .get => (signedIn auth).and (eq (dataField resource "uid") auth.uid)
  | .list => deny
  | .create fields => (signedIn auth).and (eq auth.uid (dataField fields "uid"))
  | .update fields => ((signedIn auth).and (eq auth.uid (dataField resource "uid"))).and
      (eq auth.uid (dataField fields "uid"))
  | .delete => (signedIn auth).and (eq auth.uid (dataField resource "uid"))

/-- `match /deviceTokens/{uid}`. -/
def deviceTokensRule (uid : String) : Method → Verdict
  | _ => (signedIn auth).and (eq auth.uid (some (.string uid)))

/-- `match /userInbox/{uid}/messages/{messageId}`. -/
def userInboxRule (uid : String) : Method → Verdict
  | .get | .list | .update _ => (signedIn auth).and (eq auth.uid (some (.string uid)))
  | .create _ | .delete => deny

/-- `isParticipant()`. -/
def isParticipant : Verdict :=
  (signedIn auth).and (isIn auth.uid (dataField resource "participantIds"))

/-- `isOwner()`. -/
def isOwner : Verdict := (signedIn auth).and (eq auth.uid (dataField resource "ownerId"))

/-- `match /pieces/{pieceId}`. -/
def piecesRule : Method → Verdict
  | .get | .list => isParticipant auth resource
  | .create fields => (((signedIn auth).and (eq auth.uid (dataField fields "ownerId"))).and
      (eq (dataField fields "participantIds") (auth.uid.map fun uid => .array [uid]))).and
        (eq (sizeOf? (dataField fields "collaborators")) (some 0))
  | .update fields => (((isOwner auth resource).and
      (eq (dataField fields "ownerId") (dataField resource "ownerId"))).and
        (eq (dataField fields "participantIds") (dataField resource "participantIds"))).and
          (eq (dataField fields "collaborators") (dataField resource "collaborators"))
  | .delete => isOwner auth resource

variable (parentPiece : Option Fields)

/-- `isPieceParticipant()`. -/
def isPieceParticipant : Verdict :=
  (signedIn auth).and (isIn auth.uid (dataField parentPiece "participantIds"))

/-- `match /layers/{uid}`. -/
def layersRule (uid : String) : Method → Verdict
  | .get | .list => isPieceParticipant auth parentPiece
  | .create _ | .update _ => ((signedIn auth).and (eq auth.uid (some (.string uid)))).and
      (isPieceParticipant auth parentPiece)
  | .delete => (signedIn auth).and ((eq auth.uid (some (.string uid))).or
      (eq auth.uid (dataField parentPiece "ownerId")))

/-- `match /notes/{noteId}`. -/
def notesRule : Method → Verdict
  | .get | .list => isPieceParticipant auth parentPiece
  | .create fields => (isPieceParticipant auth parentPiece).and
      (eq (dataField fields "authorId") auth.uid)
  | .update fields => ((signedIn auth).and (eq (dataField resource "authorId") auth.uid)).and
      (affectsOnly ["deletedAt"] resource fields)
  | .delete => deny

/-- `match /reads/{uid}`, and for reads also `match /{path=**}/reads/{readUid}`. -/
def readsRule (uid : String) : Method → Verdict
  | .get | .list => (((signedIn auth).and (eq auth.uid (some (.string uid)))).and
      (isPieceParticipant auth parentPiece)).or
        ((signedIn auth).and (eq auth.uid (dataField resource "uid")))
  | .create _ | .update _ | .delete => ((signedIn auth).and
      (eq auth.uid (some (.string uid)))).and (isPieceParticipant auth parentPiece)

end

/-! ## What the blocks grant -/

section

variable {uid : String} {resource parentPiece : Option Fields} {fields : Fields}

@[simp] theorem signedIn_some : signedIn (some uid) = some true := rfl
@[simp] theorem uid_some : Auth.uid (some uid) = some (.string uid) := rfl
@[simp] theorem dataField_some (key : String) : dataField (some fields) key = fields.get key := rfl
@[simp] theorem dataField_none (key : String) : dataField none key = none := rfl

theorem holds_isOwner :
    (isOwner (some uid) resource).Holds ↔ dataField resource "ownerId" = some (.string uid) := by
  simp [isOwner, holds_eq]

theorem holds_piecesRule_create :
    (piecesRule (some uid) resource (.create fields)).Holds ↔
      fields.get "ownerId" = some (.string uid) ∧
      fields.get "participantIds" = some (.array [.string uid]) ∧
      sizeOf? (fields.get "collaborators") = some 0 := by
  simp [piecesRule, holds_eq, and_assoc, eq_comm]

theorem holds_piecesRule_update :
    (piecesRule (some uid) resource (.update fields)).Holds ↔
      dataField resource "ownerId" = some (.string uid) ∧
      fields.get "ownerId" = some (.string uid) ∧
      (∃ v, fields.get "participantIds" = some v ∧ dataField resource "participantIds" = some v) ∧
      ∃ v, fields.get "collaborators" = some v ∧ dataField resource "collaborators" = some v := by
  simp only [piecesRule, holds_and, holds_isOwner, holds_eq, dataField_some, and_assoc]
  constructor
  · rintro ⟨howner, ⟨v, hnew, hold⟩, hrest⟩
    rw [howner, Option.some.injEq] at hold
    subst hold
    exact ⟨howner, hnew, hrest⟩
  · rintro ⟨howner, hnew, hrest⟩
    exact ⟨howner, ⟨_, hnew, howner⟩, hrest⟩

/-- What the keys do not cover is left alone. -/
theorem holds_affectsOnly {keys : List String} {old : Fields} :
    (affectsOnly keys (some old) (some fields)).Holds ↔
      ∀ key, key ∉ keys → fields.get key = old.get key := by
  simp only [affectsOnly, holds_some, List.all_eq_true, Bool.or_eq_true, List.contains_iff_mem,
    decide_eq_true_eq]
  constructor
  · intro h key hkey
    by_cases hmem : key ∈ old.map (·.1) ++ fields.map (·.1)
    · obtain hin | heq := h key hmem
      · exact absurd hin hkey
      · exact heq.symm
    · rw [List.mem_append, not_or] at hmem
      rw [Assoc.get_eq_none hmem.1, Assoc.get_eq_none hmem.2]
  · intro h key _
    by_cases hkey : key ∈ keys
    · exact .inl hkey
    · exact .inr (h key hkey).symm

/-- Nobody takes part in a piece that is missing. -/
theorem not_holds_isPieceParticipant_none {auth : Auth} : ¬(isPieceParticipant auth none).Holds := by
  rw [isPieceParticipant, holds_and, not_and]
  intro _ h
  rw [dataField_none] at h
  cases hauth : auth.uid <;> simp [isIn, hauth, Holds] at h

/-- A layer is written by the participant whose uid it is stored under. -/
theorem holds_layersRule_create {layerId : String} :
    (layersRule (some uid) parentPiece layerId (.create fields)).Holds ↔
      layerId = uid ∧ (isPieceParticipant (some uid) parentPiece).Holds := by
  simp [layersRule, holds_eq]

theorem holds_layersRule_update {layerId : String} :
    (layersRule (some uid) parentPiece layerId (.update fields)).Holds ↔
      layerId = uid ∧ (isPieceParticipant (some uid) parentPiece).Holds := by
  simp [layersRule, holds_eq]

theorem holds_notesRule_create : (notesRule (some uid) resource parentPiece (.create fields)).Holds ↔
    (isPieceParticipant (some uid) parentPiece).Holds ∧
      fields.get "authorId" = some (.string uid) := by
  simp [notesRule, holds_eq]

/-- A note is tombstoned by its author; nothing else of it changes. -/
theorem holds_notesRule_update : (notesRule (some uid) resource parentPiece (.update fields)).Holds ↔
    dataField resource "authorId" = some (.string uid) ∧
      (affectsOnly ["deletedAt"] resource (some fields)).Holds := by
  simp [notesRule, holds_eq]

end

/-! ## Requests -/

namespace Cloud

variable (cloud : Cloud) (auth : Auth)

/-- The verdict on a request of one method on the document at a path. -/
def verdict : DocPath → Method → Verdict
  | path@(.usersByEmail _), method => usersByEmailRule auth (cloud.doc path) method
  | .deviceTokens uid, method => deviceTokensRule auth uid method
  | .userInbox uid _, method => userInboxRule auth uid method
  | path@(.pieces _), method => piecesRule auth (cloud.doc path) method
  | .layers pieceId uid, method => layersRule auth (cloud.doc (.pieces pieceId)) uid method
  | path@(.notes pieceId _), method =>
    notesRule auth (cloud.doc path) (cloud.doc (.pieces pieceId)) method
  | path@(.reads pieceId uid), method =>
    readsRule auth (cloud.doc path) (cloud.doc (.pieces pieceId)) uid method
  | .rateLimits _, _ => deny

/-- The request is permitted. -/
def permits (path : DocPath) (method : Method) : Prop := (cloud.verdict auth path method).Holds

instance (path : DocPath) (method : Method) : Decidable (cloud.permits auth path method) :=
  inferInstanceAs (Decidable (_ = _))

/-- A query is permitted when its constraints alone make every result readable. -/
def permitsQuery : Query → Prop
  | .directoryOf _ | .deletedUntil _ | .descendantsOf _ => False
  | .inboxOf uid => (userInboxRule auth uid .list).Holds
  | .piecesOf uid => auth = some uid
  | .layersOf pieceId | .notesOf pieceId | .notesBy pieceId _ =>
    (isPieceParticipant auth (cloud.doc (.pieces pieceId))).Holds

/-- The write is permitted: a create, an update or a delete, depending on what is stored. -/
def permitsWrite (write : Write) : Prop :=
  match write.result (cloud.doc write.path) with
  | .error _ => False
  | .ok none => cloud.permits auth write.path .delete
  | .ok (some fields) => cloud.permits auth write.path
      (if (cloud.doc write.path).isSome then .update fields else .create fields)

instance (write : Write) : Decidable (cloud.permitsWrite auth write) := by
  unfold permitsWrite
  split <;> infer_instance

/-- Every read and every write of the transaction is permitted. -/
def permitsTransaction : Transaction → Prop
  | .commit writes => ∀ write ∈ writes, cloud.permitsWrite auth write
  | .abort _ => True
  | .get path k => cloud.permits auth path .get ∧ permitsTransaction (k (cloud.doc path))

instance decidablePermitsTransaction : ∀ body, Decidable (cloud.permitsTransaction auth body)
  | .commit _ => inferInstanceAs (Decidable (∀ write ∈ _, cloud.permitsWrite auth write))
  | .abort _ => isTrue trivial
  | .get path k =>
    have := decidablePermitsTransaction (k (cloud.doc path))
    inferInstanceAs (Decidable (_ ∧ _))

instance (query : Query) : Decidable (cloud.permitsQuery auth query) := by
  cases query <;> unfold permitsQuery <;> infer_instance

end Cloud

/-- Every read and every write of the operation is permitted; the writes of a batch are judged
against the documents before it. -/
def Operation.Permitted (auth : Auth) : Operation → Cloud → Prop
  | .get path, cloud => cloud.permits auth path .get
  | .list query, cloud => cloud.permitsQuery auth query
  | .commit writes, cloud => ∀ write ∈ writes, cloud.permitsWrite auth write
  | .transaction body, cloud => cloud.permitsTransaction auth body

instance (auth : Auth) (op : Operation) (cloud : Cloud) : Decidable (op.Permitted auth cloud) := by
  cases op <;> unfold Operation.Permitted <;> infer_instance

end Duet
