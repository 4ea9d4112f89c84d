import Duet.Cloud.Server

/-!
# Who takes part in a piece

What the operations of the callables do to the participants of the pieces, and to the messages
that invite to them.

## Main definitions

* `TakesPart`, `invitedTo?` — who takes part, and what a message invites to.
* `Cloud.Admits` — nobody joins a piece uninvited.
* `Drops` — the operations of `leavePiece` and `deleteAccount`.
* `CallableOperation` — the operations of all callables.

`admits_of_drops` and `Cloud.admits_joinPiece` say once what the operations do.
-/

namespace Duet

open Lib Program

/-- The user takes part in the piece. -/
def TakesPart (piece : Fields) (uid : String) : Prop :=
  arrayContains (piece.read "participantIds") (.string uid) = true

instance (piece : Fields) (uid : String) : Decidable (TakesPart piece uid) :=
  inferInstanceAs (Decidable (_ = _))

/-- The piece that a message invites to. -/
def invitedTo? (message : Fields) : Option String :=
  nonEmptyString? (fieldOf (message.read "data") "pieceId")

/-- The participants, with a missing field read as the empty array. -/
theorem takesPart_iff_mem {piece : Fields} {uid : String} {items : List Value}
    (h : arrayOrEmpty? (piece.read "participantIds") = some items) :
    TakesPart piece uid ↔ .string uid ∈ items := by
  rcases hvalue : piece.read "participantIds" with _ | _ | _ | _ | _ | _ | items' | _ <;>
    simp only [hvalue, arrayOrEmpty?, Option.some.injEq, reduceCtorEq] at h <;>
    simp [TakesPart, hvalue, arrayContains, ← h]

theorem takesPart_of_arrayRemove {piece : Fields} (uid : String) {uid' : String} {value : Value}
    (h : arrayContains (Change.apply (.arrayRemove (.string uid)) value) (.string uid') = true)
    (hread : piece.read "participantIds" = value) : TakesPart piece uid' := by
  rw [TakesPart, hread]
  cases value <;> simp_all [Change.apply, arrayContains]

/-! ## Operations that let nobody in uninvited -/

/-- No piece changes hands, and whoever joins one, or is sent a message that names it, is invited
to it. -/
structure Cloud.Admits (invited : String → String → Prop) (c c' : Cloud) : Prop where
  pieces : ∀ pieceId piece', c'.doc (.pieces pieceId) = some piece' →
    ∃ piece, c.doc (.pieces pieceId) = some piece ∧
      piece'.read "ownerId" = piece.read "ownerId" ∧
      ∀ uid, TakesPart piece' uid → TakesPart piece uid ∨ invited pieceId uid
  inboxes : ∀ recipientUid messageId message' pieceId,
    c'.doc (.userInbox recipientUid messageId) = some message' →
    invitedTo? message' = some pieceId → invited pieceId recipientUid ∨ ∃ message,
      c.doc (.userInbox recipientUid messageId) = some message ∧
        invitedTo? message = some pieceId

namespace Cloud

variable {invited : String → String → Prop} {c : Cloud}

theorem Admits.refl (c : Cloud) : c.Admits invited c :=
  ⟨fun _ piece h => ⟨piece, h, rfl, fun _ => .inl⟩, fun _ _ message _ h hq => .inr ⟨message, h, hq⟩⟩

theorem admits_remove (c : Cloud) (path : DocPath) : c.Admits invited (c.store path none) := by
  constructor
  · intro pieceId piece' h
    rw [doc_store] at h
    split_ifs at h
    exact ⟨piece', h, rfl, fun _ => .inl⟩
  · intro recipientUid messageId message' pieceId h hq
    rw [doc_store] at h
    split_ifs at h
    exact .inr ⟨message', h, hq⟩

/-- A piece that is stored over itself. -/
theorem admits_store_piece {pieceId : String} {piece piece' : Fields}
    (hdoc : c.doc (.pieces pieceId) = some piece)
    (howner : piece'.read "ownerId" = piece.read "ownerId")
    (hmembers : ∀ uid, TakesPart piece' uid → TakesPart piece uid ∨ invited pieceId uid) :
    c.Admits invited (c.store (.pieces pieceId) (some piece')) := by
  constructor
  · intro pieceId' piece'' h
    rw [doc_store] at h
    split_ifs at h with hpath
    · obtain rfl := DocPath.pieces.inj hpath
      obtain rfl := Option.some.inj h
      exact ⟨piece, hdoc, howner, hmembers⟩
    · exact ⟨piece'', h, rfl, fun _ => .inl⟩
  · intro recipientUid messageId message' pieceId' h hq
    rw [doc_store_of_ne c (by simp)] at h
    exact .inr ⟨message', h, hq⟩

/-- A message that names a piece its recipient is invited to, or the one it named before. -/
theorem admits_store_message {recipientUid messageId : String} {message' : Fields}
    (hmessage : ∀ pieceId, invitedTo? message' = some pieceId →
      invited pieceId recipientUid ∨ ∃ message,
        c.doc (.userInbox recipientUid messageId) = some message ∧
          invitedTo? message = some pieceId) :
    c.Admits invited (c.store (.userInbox recipientUid messageId) (some message')) := by
  constructor
  · intro pieceId piece' h
    rw [doc_store_of_ne c (by simp)] at h
    exact ⟨piece', h, rfl, fun _ => .inl⟩
  · intro recipientUid' messageId' message'' pieceId h hq
    rw [doc_store] at h
    split_ifs at h with hpath
    · obtain ⟨rfl, rfl⟩ := DocPath.userInbox.inj hpath
      obtain rfl := Option.some.inj h
      exact hmessage pieceId hq
    · exact .inr ⟨message'', h, hq⟩

theorem admits_settle {outcome : Except CloudFailure Cloud}
    (h : ∀ c', outcome = .ok c' → c.Admits invited c') : c.Admits invited (c.settle outcome).2 := by
  cases outcome with
  | error failure => exact .refl c
  | ok c' => exact h c' rfl

theorem admits_write {write : Write}
    (h : ∀ fields, write.result (c.doc write.path) = .ok fields →
      c.Admits invited (c.store write.path fields)) :
    c.Admits invited (Operation.perform (.commit [write]) c).2 := by
  refine admits_settle fun c' hok => ?_
  obtain ⟨fields, hfields, rfl⟩ := commit_singleton.mp hok
  exact h fields hfields

/-- An `update` of a piece in a commit or at the end of a transaction. -/
theorem admits_update_piece {pieceId : String} {changes : List (String × Change)} {c' : Cloud}
    (hok : c.commit [.update (.pieces pieceId) changes] = .ok c')
    (howner : ∀ piece, (Write.changed piece changes).read "ownerId" = piece.read "ownerId")
    (hmembers : ∀ piece, c.doc (.pieces pieceId) = some piece → ∀ uid,
      TakesPart (Write.changed piece changes) uid → TakesPart piece uid ∨ invited pieceId uid) :
    c.Admits invited c' := by
  obtain ⟨fields, hfields, rfl⟩ := commit_singleton.mp hok
  rcases hdoc : c.doc (.pieces pieceId) with _ | piece
  · simp [Write.path, Write.result, hdoc] at hfields
  · simp only [Write.path, hdoc, Write.result, Except.ok.injEq] at hfields
    subst hfields
    exact admits_store_piece hdoc (howner piece) (hmembers piece hdoc)

end Cloud

/-- The operations of `leavePiece` and `deleteAccount`: they read, delete, and drop somebody from a
piece. -/
def Drops : Operation → Prop
  | .get _ => True
  | .list _ => True
  | .commit writes => (∃ path, writes = [.delete path]) ∨ ∃ pieceId uid collaborators,
      writes = [.update (.pieces pieceId) [("collaborators", .set collaborators),
        ("participantIds", .arrayRemove (.string uid))]]
  | .transaction body => ∃ uid pieceId, body = dropFromPiece uid pieceId

/-- What `leavePiece` and `deleteAccount` do to the documents. -/
theorem admits_of_drops {invited : String → String → Prop} {op : Operation}
    (h : Drops op) (c : Cloud) : c.Admits invited (Operation.perform op c).2 := by
  cases op with
  | get path => exact .refl c
  | list query => exact .refl c
  | commit writes =>
    rcases h with ⟨path, rfl⟩ | ⟨pieceId, uid, collaborators, rfl⟩
    · apply Cloud.admits_write
      intro fields hfields
      obtain rfl := Except.ok.inj hfields
      exact c.admits_remove path
    · refine Cloud.admits_settle fun c' hok => Cloud.admits_update_piece hok ?_ ?_
      · intro piece
        simp [Write.changed, Fields.read_set]
      · intro piece _ uid' hpart
        refine .inl (takesPart_of_arrayRemove uid ?_ rfl)
        simpa [TakesPart, Write.changed, Fields.read_set] using hpart
  | transaction body =>
    obtain ⟨uid, pieceId, rfl⟩ := h
    refine Cloud.admits_settle fun c' hok => ?_
    simp only [dropFromPiece, Transaction.run] at hok
    rcases hdoc : c.doc (.pieces pieceId) with _ | piece
    · rw [hdoc] at hok
      obtain rfl := Except.ok.inj hok
      exact .refl c
    rw [hdoc] at hok
    dsimp only at hok
    split at hok
    · rename_i ids collaborators hids _
      refine Cloud.admits_update_piece hok ?_ ?_
      · intro piece
        simp [Write.changed, Fields.read_set]
      · intro piece' hpiece uid' hpart
        obtain rfl := Option.some.inj (hdoc.symm.trans hpiece)
        rw [takesPart_iff_mem (by simp [Write.changed, Fields.read_set, Change.apply]; rfl)] at hpart
        exact .inl ((takesPart_iff_mem hids).mpr (List.mem_of_mem_filter hpart))
    · cases hok

/-- Joining a piece that one is invited to. -/
theorem Cloud.admits_joinPiece {invited : String → String → Prop} {uid pieceId : String}
    (name email : Value) (h : invited pieceId uid) (c : Cloud) :
    c.Admits invited (Operation.perform (.transaction (joinPiece uid name email pieceId)) c).2 := by
  refine admits_settle fun c' hok => ?_
  simp only [joinPiece, Transaction.run] at hok
  rcases hdoc : c.doc (.pieces pieceId) with _ | piece
  · rw [hdoc] at hok
    obtain rfl := Except.ok.inj hok
    exact .refl c
  rw [hdoc] at hok
  dsimp only at hok
  split at hok
  · cases hok
  rename_i participantIds hids
  split_ifs at hok
  · obtain rfl := Except.ok.inj hok
    exact .refl c
  split at hok
  · cases hok
  refine admits_update_piece hok ?_ ?_
  · intro piece
    simp [Write.changed, Fields.read_set]
  · intro piece' hpiece uid' hpart
    obtain rfl := Option.some.inj (hdoc.symm.trans hpiece)
    rw [takesPart_iff_mem (by simp [Write.changed, Fields.read_set, Change.apply]; rfl),
      List.mem_append, List.mem_singleton] at hpart
    rcases hpart with hpart | hpart
    · exact .inl ((takesPart_iff_mem hids).mpr hpart)
    · exact .inr (Value.string.inj hpart ▸ h)

/-! ## The operations that the callables issue -/

theorem onlyWrites_joinPiece (uid : String) (name email : Value) (pieceId : String) :
    (Operation.transaction (joinPiece uid name email pieceId)).OnlyWrites
      (· = .pieces pieceId) := by
  intro piece
  cases piece with
  | none => simp [Transaction.OnlyWrites]
  | some piece =>
    dsimp only
    split
    · trivial
    · split_ifs
      · simp [Transaction.OnlyWrites]
      · split
        · trivial
        · simp [Transaction.OnlyWrites, Write.path]

theorem onlyWrites_dropFromPiece (uid pieceId : String) :
    (Operation.transaction (dropFromPiece uid pieceId)).OnlyWrites (· = .pieces pieceId) := by
  intro piece
  cases piece with
  | none => simp [Transaction.OnlyWrites]
  | some piece =>
    dsimp only
    split
    · simp [Transaction.OnlyWrites, Write.path]
    · trivial

section

variable {can : (op : Operation) → op.Response → Prop} {ok : Operation → Prop}
variable (hget : ∀ path, ok (.get path)) (hlist : ∀ query, ok (.list query))
  (hdelete : ∀ path, ok (.commit [.delete path]))

include hdelete in
theorem issues_commitEach {writes : List Write} (h : ∀ write ∈ writes, ∃ path, write = .delete path) :
    (commitEach writes).Issues can ok := by
  induction writes with
  | nil => trivial
  | cons write writes ih =>
    obtain ⟨path, rfl⟩ := h write (by simp)
    exact ⟨hdelete path, fun _ _ => ih fun w hw => h w (List.mem_cons_of_mem _ hw)⟩

include hdelete in
/-- Whatever the order, a bulk writer that only deletes deletes. -/
theorem issues_commitEach_order (schedule : Schedule) {writes : List Write}
    (h : ∀ write ∈ writes, ∃ path, write = .delete path) :
    (commitEach (schedule.order writes)).Issues can ok :=
  issues_commitEach hdelete fun write hw => h write ((schedule.perm writes).mem_iff.mp hw)

include hget hdelete in
/-- `leavePiece` writes to a piece that it has read, and that the caller does not own. -/
theorem issues_leavePiece (auth : Option Token) (data : Fields)
    (hupdate : ∀ uid pieceId piece collaborators, can (.get (.pieces pieceId)) (some piece) →
      piece.read "ownerId" ≠ .string uid →
      (arrayOrEmpty? (piece.read "collaborators")).bind (withoutUid? uid) = some collaborators →
      ok (.commit [.update (.pieces pieceId) [("collaborators", .set (.array collaborators)),
        ("participantIds", .arrayRemove (.string uid))]])) :
    (leavePiece auth data).Issues can ok := by
  refine (Issues.orFail _ _).bind fun token => (Issues.orFail _ _).bind fun pieceId =>
    .perform_bind (hget _) fun (piece : Option Fields) hpiece => ?_
  rcases piece with _ | piece
  · trivial
  simp only [leaveRead]
  split_ifs with howner
  · trivial
  rcases hcollaborators : (arrayOrEmpty? (piece.read "collaborators")).bind (withoutUid? token.uid)
    with _ | collaborators
  · trivial
  exact ⟨hupdate _ _ piece collaborators hpiece howner hcollaborators, fun _ _ =>
    ⟨hdelete _, fun _ _ => trivial⟩⟩

include hlist hdelete in
theorem issues_leavePieces (uid : String) (schedule : Schedule) {pieces : List (DocPath × Fields)}
    (hdrop : ∀ piece ∈ pieces, ok (.transaction (dropFromPiece uid (pieceIdOf piece.1)))) :
    (leavePieces uid schedule pieces).Issues can ok := by
  induction pieces with
  | nil => trivial
  | cons piece rest ih =>
    refine .perform_bind (hlist _) fun (notes : List (DocPath × Fields)) _ => ?_
    refine (issues_commitEach_order hdelete schedule ?_).bind fun _ => ?_
    · intro write hw
      simp only [List.mem_cons, List.mem_map] at hw
      rcases hw with rfl | ⟨note, -, rfl⟩
      · exact ⟨_, rfl⟩
      · exact ⟨_, rfl⟩
    · exact ⟨hdrop piece (by simp), fun _ _ => ih fun p hp => hdrop p (List.mem_cons_of_mem _ hp)⟩

include hget hlist hdelete in
/-- `deleteAccount` deletes, and drops the caller from pieces that it has listed and that the
caller does not own. -/
theorem issues_deleteAccount (auth : Option Token) (recent : Bool) (schedule : Schedule)
    (hdrop : ∀ uid (pieces : List (DocPath × Fields)), can (.list (.piecesOf uid)) pieces →
      ∀ piece ∈ pieces, piece.2.read "ownerId" ≠ .string uid →
        ok (.transaction (dropFromPiece uid (pieceIdOf piece.1)))) :
    (deleteAccount auth recent schedule).Issues can ok := by
  refine (Issues.orFail _ _).bind fun token => ?_
  split_ifs
  · trivial
  refine .perform_bind (hlist _) fun (directory : List (DocPath × Fields)) _ =>
    .perform_bind (hget _) fun (deviceToken : Option Fields) _ => ?_
  refine (issues_commitEach_order hdelete schedule ?_).bind fun _ => ?_
  · intro write hw
    simp only [List.mem_append, List.mem_map, List.mem_singleton] at hw
    rcases hw with ⟨entry, -, rfl⟩ | rfl
    · exact ⟨_, rfl⟩
    · exact ⟨_, rfl⟩
  refine .perform_bind (hlist _) fun (counted : List (DocPath × Fields)) _ =>
    .perform_bind (hlist _) fun (inbox : List (DocPath × Fields)) _ => ?_
  refine (issues_commitEach_order hdelete schedule ?_).bind fun _ => ?_
  · intro write hw
    obtain ⟨message, -, rfl⟩ := List.mem_map.mp hw
    exact ⟨_, rfl⟩
  refine .perform_bind (hlist _) fun (myPieces : List (DocPath × Fields)) hpieces => ?_
  refine Issues.bind ?_ fun _ => trivial
  refine (issues_commitEach_order hdelete schedule ?_).bind fun _ =>
    issues_leavePieces hlist hdelete _ _ ?_
  · intro write hw
    obtain ⟨piece, -, rfl⟩ := List.mem_map.mp hw
    exact ⟨_, rfl⟩
  · intro piece hpiece
    simp only [ne_eq, decide_not, List.mem_filter, Bool.not_eq_true', decide_eq_false_iff_not]
      at hpiece
    exact hdrop token.uid myPieces hpieces piece hpiece.1 hpiece.2

include hget in
/-- `sendInvite` writes to an inbox alone. -/
theorem issues_sendInvite (emailKey : String → String) (auth : Option Token) (data : Fields)
    (messageId : String) (now : Int)
    (hset : ∀ uid fields, ok (.commit [.set (.userInbox uid messageId) fields])) :
    (sendInvite emailKey auth data messageId now).Issues can ok := by
  refine (Issues.orFail _ _).bind fun token => (Issues.orFail _ _).bind fun pieceId =>
    (Issues.orFail _ _).bind fun inviteeEmail =>
      .perform_bind (hget _) fun (piece : Option Fields) _ => ?_
  rcases piece with _ | piece
  · trivial
  simp only [checkOwner]
  split_ifs
  · trivial
  refine .perform_bind (hget _) fun (entry : Option Fields) _ => ?_
  rcases entry with _ | entry
  · trivial
  simp only [deliverInvite]
  split_ifs
  · trivial
  · exact (Issues.orFail _ _).bind fun uid => ⟨hset uid _, fun _ _ => trivial⟩

include hget in
/-- `acceptInvite` joins a piece and marks the message read. -/
theorem issues_acceptInvite (auth : Option Token) (data : Fields)
    (hjoin : ∀ uid name email pieceId, ok (.transaction (joinPiece uid name email pieceId)))
    (hmerge : ∀ uid messageId,
      ok (.commit [.merge (.userInbox uid messageId) [("read", .bool true)]])) :
    (acceptInvite auth data).Issues can ok := by
  refine (Issues.orFail _ _).bind fun token => (Issues.orFail _ _).bind fun messageId =>
    .perform_bind (hget _) fun (message : Option Fields) _ => ?_
  rcases message with _ | message
  · trivial
  simp only [useInvite]
  split_ifs
  · trivial
  · trivial
  split
  · exact ⟨hmerge _ _, fun _ _ => trivial⟩
  · exact ⟨hjoin _ _ _ _, fun _ _ => ⟨hmerge _ _, fun _ _ => trivial⟩⟩

end

/-- The operations of the callables, whatever they have read. -/
def CallableOperation : Operation → Prop
  | .get _ | .list _ => True
  | .commit writes => (∃ path, writes = [.delete path]) ∨
    (∃ pieceId uid collaborators, writes = [.update (.pieces pieceId)
      [("collaborators", .set (.array collaborators)),
        ("participantIds", .arrayRemove (.string uid))]]) ∨
    (∃ uid messageId, writes = [.merge (.userInbox uid messageId) [("read", .bool true)]]) ∨
    ∃ uid messageId fields, writes = [.set (.userInbox uid messageId) fields]
  | .transaction body => (∃ uid name email pieceId, body = joinPiece uid name email pieceId) ∨
    ∃ uid pieceId, body = dropFromPiece uid pieceId

theorem issues_callable (emailKey : String → String) (request : Request) :
    (request.program emailKey).Issues (fun _ _ => True) CallableOperation := by
  have hget : ∀ path, CallableOperation (.get path) := fun _ => trivial
  have hdelete : ∀ path, CallableOperation (.commit [.delete path]) := fun _ => .inl ⟨_, rfl⟩
  cases request with
  | sendInvite auth data messageId now =>
    exact issues_sendInvite hget emailKey auth data messageId now
      fun uid fields => .inr (.inr (.inr ⟨uid, messageId, fields, rfl⟩))
  | acceptInvite auth data =>
    exact issues_acceptInvite hget auth data (fun uid name email q => .inl ⟨uid, name, email, q, rfl⟩)
      fun uid messageId => .inr (.inr (.inl ⟨uid, messageId, rfl⟩))
  | leavePiece auth data =>
    exact issues_leavePiece hget hdelete auth data
      fun uid q _ entries _ _ _ => .inr (.inl ⟨q, uid, entries, rfl⟩)
  | deleteAccount auth recent schedule =>
    exact issues_deleteAccount hget (fun _ => trivial) hdelete auth recent schedule
      fun uid _ _ piece _ _ => .inr ⟨uid, pieceIdOf piece.1, rfl⟩

end Duet
