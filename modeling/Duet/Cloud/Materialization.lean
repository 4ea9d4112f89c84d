import Duet.Cloud.Membership
import Mathlib.Data.Finset.Basic
import Mathlib.Data.Finset.Lattice.Lemmas

/-!
# The participants of a piece, materialized

`participantIds` repeats what `ownerId` and `collaborators` say, so that a query can find it. Three
functions write the two arrays: `acceptInvite` and `deleteAccount` in a transaction, `leavePiece`
with an array that it read earlier.

## Main definitions

* `Represents` — a piece stores an owner and a set of members.
* `Server.Materialized` — the stored piece represents some owner and members.
* `Server.LeavesAsRead` — nobody joins or leaves between the read and the write of a `leavePiece`.

## Main results

* `represents_join`, `represents_drop`, `represents_leave` — what the three writes represent.
* `Server.materialized_iff` — the piece stays materialized exactly in the runs whose `leavePiece`
  calls write back what is stored.
-/

namespace Duet

open Lib Program

/-! ## A piece as an owner and a set of members -/

/-- The entries name each member once. -/
def Lists (entries : List Value) (members : Finset String) : Prop :=
  ∃ uids : List String, entries.map (fun entry => fieldOf entry "uid") = uids.map .string ∧
    uids.Nodup ∧ uids.toFinset = members

/-- The piece stores the owner and the members: both take part, each once. -/
structure Represents (piece : Fields) (owner : String) (members : Finset String) : Prop where
  ownerId : piece.read "ownerId" = .string owner
  participants : ∃ ids : List String, piece.read "participantIds" = .array (ids.map .string) ∧
    ids.Nodup ∧ ids.toFinset = insert owner members
  collaborators : ∃ entries, piece.read "collaborators" = .array entries ∧ Lists entries members

/-- The owner is not a member as well. -/
def Sound (owner : String) (piece : Fields) : Prop :=
  ∃ members, owner ∉ members ∧ Represents piece owner members

/-- Some entry names the user. -/
def Names (collaborators : Value) (uid : String) : Prop :=
  ∃ entries, collaborators = .array entries ∧
    ∃ entry ∈ entries, fieldOf entry "uid" = .string uid

/-- The changes of `leavePiece`. -/
abbrev leaveChanges (uid : String) (collaborators : List Value) : List (String × Change) :=
  [("collaborators", .set (.array collaborators)), ("participantIds", .arrayRemove (.string uid))]

variable {piece : Fields} {owner uid : String} {members stale : Finset String}
  {entries : List Value}

theorem Lists.names_iff (h : Lists entries members) :
    Names (.array entries) uid ↔ uid ∈ members := by
  obtain ⟨uids, huids, -, rfl⟩ := h
  have hmem : (Value.string uid) ∈ uids.map Value.string ↔ uid ∈ uids :=
    List.mem_map_of_injective fun _ _ => Value.string.inj
  rw [List.mem_toFinset, ← hmem, ← huids]
  simp [Names]

theorem lists_nil : Lists [] ∅ := ⟨[], rfl, List.nodup_nil, rfl⟩

theorem Lists.append (name email : Value) (h : Lists entries members) (hnew : uid ∉ members) :
    Lists (entries ++ [mapOf [("uid", .string uid), ("name", name), ("email", email)]])
      (insert uid members) := by
  obtain ⟨uids, huids, hnodup, rfl⟩ := h
  refine ⟨uids ++ [uid], ?_, ?_, ?_⟩
  · rw [List.map_append, huids, List.map_append]
    simp [mapOf, fieldOf, Assoc.ofList, Fields.read_set]
  · rw [List.mem_toFinset] at hnew
    exact List.concat_eq_append ▸ hnodup.concat hnew
  · ext other
    simp

/-- Dropping the entries of one user. -/
theorem Lists.withoutUid (uid : String) (h : Lists entries members) :
    ∃ entries', withoutUid? uid entries = some entries' ∧ Lists entries' (members.erase uid) := by
  obtain ⟨uids, huids, hnodup, rfl⟩ := h
  have hnull : entries.contains .null = false := by
    rw [List.contains_eq_mem, decide_eq_false_iff_not]
    intro hnull
    have := List.mem_map_of_mem (f := fun entry => fieldOf entry "uid") hnull
    rw [huids] at this
    simp [fieldOf] at this
  refine ⟨_, by rw [withoutUid?, hnull]; rfl, uids.filter fun other => other ≠ uid, ?_,
    hnodup.filter _, ?_⟩
  · have hfilter := congrArg (List.filter fun value => decide (value ≠ .string uid)) huids
    rw [List.filter_map, List.filter_map] at hfilter
    refine Eq.trans hfilter (congrArg (List.map Value.string) (List.filter_congr ?_))
    intro other _
    simp
  · ext other
    simp [and_comm]

/-! ## What the writes represent -/

theorem Represents.takesPart_iff (h : Represents piece owner members) :
    TakesPart piece uid ↔ uid ∈ insert owner members := by
  obtain ⟨ids, hids, -, hset⟩ := h.participants
  rw [← hset, List.mem_toFinset, takesPart_iff_mem (by rw [hids]; rfl)]
  exact List.mem_map_of_injective fun _ _ => Value.string.inj

theorem represents_join {ids : List Value} (name email : Value) (h : Represents piece owner members)
    (hids : arrayOrEmpty? (piece.read "participantIds") = some ids)
    (hentries : spread? (piece.read "collaborators") = some entries)
    (hnew : ids.contains (.string uid) = false) :
    Represents (Write.changed piece [("participantIds", .set (.array (ids ++ [.string uid]))),
      ("collaborators", .set (.array (entries ++
        [mapOf [("uid", .string uid), ("name", name), ("email", email)]])))])
      owner (insert uid members) ∧ uid ≠ owner := by
  have hout : uid ∉ insert owner members := by
    rw [← h.takesPart_iff, takesPart_iff_mem hids, ← List.contains_iff_mem, hnew]
    simp
  rw [Finset.mem_insert, not_or] at hout
  obtain ⟨ids', hids', hnodup, hset⟩ := h.participants
  obtain ⟨entries', hentries', hlists⟩ := h.collaborators
  rw [hids'] at hids
  rw [hentries'] at hentries
  obtain rfl := Option.some.inj hids
  obtain rfl := Option.some.inj hentries
  refine ⟨⟨?_, ⟨ids' ++ [uid], ?_, ?_, ?_⟩, _, ?_, hlists.append name email hout.2⟩, hout.1⟩
  · simpa [Write.changed, Fields.read_set] using h.ownerId
  · simp [Write.changed, Fields.read_set, Change.apply]
  · have hid : uid ∉ ids' := by
      rw [← List.mem_toFinset, hset]
      simp [hout.1, hout.2]
    exact List.concat_eq_append ▸ hnodup.concat hid
  · ext other
    have := Finset.ext_iff.mp hset other
    simp only [List.mem_toFinset, Finset.mem_insert] at this
    simp [this]
    tauto
  · simp [Write.changed, Fields.read_set, Change.apply]

/-- Filtering one user out of the participants. -/
theorem participants_filter {ids : List String} (hnodup : ids.Nodup)
    (hset : ids.toFinset = insert owner members) (hne : uid ≠ owner) :
    ∃ ids' : List String, (ids.map Value.string).filter (fun id => id ≠ .string uid) =
      ids'.map .string ∧ ids'.Nodup ∧ ids'.toFinset = insert owner (members.erase uid) := by
  refine ⟨ids.filter fun other => other ≠ uid, ?_, hnodup.filter _, ?_⟩
  · rw [List.filter_map]
    refine congrArg (List.map Value.string) (List.filter_congr ?_)
    intro other _
    simp
  · ext other
    have := Finset.ext_iff.mp hset other
    simp only [List.mem_toFinset, Finset.mem_insert] at this
    simp only [List.mem_toFinset, List.mem_filter, this, Finset.mem_insert, Finset.mem_erase]
    by_cases hother : other = uid <;> simp [hother, hne]

theorem represents_drop {ids : List Value} {entries : List Value} (h : Represents piece owner members)
    (hids : arrayOrEmpty? (piece.read "participantIds") = some ids)
    (hentries : (arrayOrEmpty? (piece.read "collaborators")).bind (withoutUid? uid) = some entries)
    (hne : uid ≠ owner) :
    Represents (Write.changed piece
      [("participantIds", .set (.array (ids.filter fun id => id ≠ .string uid))),
        ("collaborators", .set (.array entries))]) owner (members.erase uid) := by
  obtain ⟨ids', hids', hnodup, hset⟩ := h.participants
  obtain ⟨entries', hentries', hlists⟩ := h.collaborators
  rw [hids'] at hids
  rw [hentries'] at hentries
  obtain rfl := Option.some.inj hids
  obtain ⟨entries'', hwithout, hlists⟩ := hlists.withoutUid uid
  obtain rfl := Option.some.inj (hwithout.symm.trans hentries)
  obtain ⟨ids'', hfilter, hnodup, hset⟩ := participants_filter hnodup hset hne
  refine ⟨?_, ⟨ids'', ?_, hnodup, hset⟩, entries'', ?_, hlists⟩
  · simpa [Write.changed, Fields.read_set] using h.ownerId
  · rw [← hfilter]
    simp [Write.changed, Fields.read_set, Change.apply]
  · simp [Write.changed, Fields.read_set, Change.apply]

theorem takesPart_leave {other : String} (h : Represents piece owner members) :
    TakesPart (Write.changed piece (leaveChanges uid entries)) other ↔
      TakesPart piece other ∧ other ≠ uid := by
  obtain ⟨ids, hids, -⟩ := h.participants
  simp [TakesPart, Write.changed, Fields.read_set, Change.apply, hids, arrayContains]

theorem represents_leave (h : Represents piece owner members) (howner : owner ∉ members)
    (hstale : Lists entries stale) (hne : uid ≠ owner) (huid : uid ∉ stale) (hout : owner ∉ stale) :
    (∃ owner' members', Represents (Write.changed piece (leaveChanges uid entries)) owner' members') ↔
      ∀ other, other ≠ uid →
        (Names (.array entries) other ↔ Names (piece.read "collaborators") other) := by
  obtain ⟨entries', hentries', hlists⟩ := h.collaborators
  constructor
  · rintro ⟨owner', members', h'⟩ other hother
    have howner' : owner' = owner := by
      have := h'.ownerId
      simpa [Write.changed, Fields.read_set, h.ownerId, eq_comm] using this
    subst howner'
    obtain ⟨entries'', hentries'', hlists'⟩ := h'.collaborators
    have hsame : entries'' = entries := by
      simpa [Write.changed, Fields.read_set, Change.apply, eq_comm] using hentries''
    subst hsame
    have hiff : other ∈ insert owner' members' ↔ other ∈ insert owner' members := by
      rw [← h'.takesPart_iff, ← h.takesPart_iff, takesPart_leave h]
      simp [hother]
    rw [hentries', hstale.names_iff, hlists.names_iff]
    by_cases hself : other = owner'
    · subst hself
      simp [hout, howner]
    · rw [← hstale.names_iff, hlists'.names_iff]
      simpa [hself] using hiff
  · intro hsame
    have hset : members.erase uid = stale := by
      ext other
      by_cases hother : other = uid
      · simp [hother, huid]
      · rw [Finset.mem_erase, ← hlists.names_iff, ← hstale.names_iff, hsame other hother, hentries']
        simp [hother]
    subst hset
    obtain ⟨ids, hids, hnodup, hset⟩ := h.participants
    obtain ⟨ids', hfilter, hnodup, hset⟩ := participants_filter hnodup hset hne
    refine ⟨owner, members.erase uid, ?_, ⟨ids', ?_, hnodup, hset⟩, entries, ?_, hstale⟩
    · simpa [Write.changed, Fields.read_set] using h.ownerId
    · rw [← hfilter]
      simp [Write.changed, Fields.read_set, Change.apply, hids]
    · simp [Write.changed, Fields.read_set, Change.apply]

theorem Sound.ownerId (h : Sound owner piece) :
    piece.read "ownerId" = .string owner ∧ ¬Names (piece.read "collaborators") owner := by
  obtain ⟨members, howner, hrep⟩ := h
  obtain ⟨entries, hentries, hlists⟩ := hrep.collaborators
  exact ⟨hrep.ownerId, by rwa [hentries, hlists.names_iff]⟩

/-! ## What the callables do to one piece -/

/-- The responses that a call can get while the piece is sound. -/
def Sees (pieceId owner : String) : (op : Operation) → op.Response → Prop
  | .get path, (response : Option Fields) => path = .pieces pieceId →
    ∀ piece, response = some piece → Sound owner piece
  | .list query, (results : List (DocPath × Fields)) => ∀ result ∈ results,
    query.selects result.1 result.2 = true ∧ (result.1 = .pieces pieceId → Sound owner result.2)
  | .commit _, _ | .transaction _, _ => True

/-- The operations that the callables issue on a piece. -/
def WritesMembers (pieceId owner : String) : Operation → Prop
  | .get _ | .list _ => True
  | .commit writes => ∃ write, writes = [write] ∧
    (write.path ≠ .pieces pieceId ∨ write = .delete (.pieces pieceId) ∨ ∃ uid entries stale,
      write = .update (.pieces pieceId) (leaveChanges uid entries) ∧ Lists entries stale ∧
        uid ≠ owner ∧ uid ∉ stale ∧ owner ∉ stale)
  | .transaction body => (∃ uid name email pieceId', body = joinPiece uid name email pieceId') ∨
    ∃ uid pieceId', body = dropFromPiece uid pieceId' ∧ (pieceId' = pieceId → uid ≠ owner)

variable {pieceId : String} {c : Cloud}

/-- The operation writes back the collaborators that a `leavePiece` call has read. -/
def WritesBack (pieceId uid : String) (entries : List Value) (op : Operation) : Prop :=
  op = .commit [.update (.pieces pieceId) (leaveChanges uid entries)]

theorem sound_joinPiece {uid pieceId' : String} {name email : Value} {c' : Cloud}
    (hsound : ∀ piece, c.doc (.pieces pieceId) = some piece → Sound owner piece)
    (hrun : (joinPiece uid name email pieceId').run c = .ok c') :
    ∀ piece, c'.doc (.pieces pieceId) = some piece → Sound owner piece := by
  simp only [joinPiece, Transaction.run] at hrun
  rcases hdoc : c.doc (.pieces pieceId') with _ | piece
  · rw [hdoc] at hrun
    obtain rfl := Except.ok.inj hrun
    exact hsound
  rw [hdoc] at hrun
  dsimp only at hrun
  split at hrun
  · cases hrun
  rename_i ids hids
  split_ifs at hrun with hnew
  · obtain rfl := Except.ok.inj hrun
    exact hsound
  split at hrun
  · cases hrun
  rename_i entries hentries
  obtain ⟨fields, hfields, rfl⟩ := Cloud.commit_singleton.mp hrun
  simp only [Write.path, hdoc, Write.result, Except.ok.injEq] at hfields
  subst hfields
  intro piece' hpiece'
  rw [Cloud.doc_store] at hpiece'
  split_ifs at hpiece' with hpath
  · obtain rfl := DocPath.pieces.inj hpath
    obtain rfl := Option.some.inj hpiece'
    obtain ⟨members, howner, hrep⟩ := hsound piece hdoc
    obtain ⟨hrep, hne⟩ := represents_join name email hrep hids hentries
      (Bool.eq_false_iff.mpr hnew)
    exact ⟨insert uid members, by simp [Ne.symm hne, howner], hrep⟩
  · exact hsound piece' hpiece'

theorem sound_dropFromPiece {uid pieceId' : String} {c' : Cloud}
    (hne : pieceId' = pieceId → uid ≠ owner)
    (hsound : ∀ piece, c.doc (.pieces pieceId) = some piece → Sound owner piece)
    (hrun : (dropFromPiece uid pieceId').run c = .ok c') :
    ∀ piece, c'.doc (.pieces pieceId) = some piece → Sound owner piece := by
  simp only [dropFromPiece, Transaction.run] at hrun
  rcases hdoc : c.doc (.pieces pieceId') with _ | piece
  · rw [hdoc] at hrun
    obtain rfl := Except.ok.inj hrun
    exact hsound
  rw [hdoc] at hrun
  dsimp only at hrun
  split at hrun
  · rename_i ids entries hids hentries
    obtain ⟨fields, hfields, rfl⟩ := Cloud.commit_singleton.mp hrun
    simp only [Write.path, hdoc, Write.result, Except.ok.injEq] at hfields
    subst hfields
    intro piece' hpiece'
    rw [Cloud.doc_store] at hpiece'
    split_ifs at hpiece' with hpath
    · obtain rfl := DocPath.pieces.inj hpath
      obtain rfl := Option.some.inj hpiece'
      obtain ⟨members, howner, hrep⟩ := hsound piece hdoc
      exact ⟨members.erase uid, by simp [howner], represents_drop hrep hids hentries (hne rfl)⟩
    · exact hsound piece' hpiece'
  · cases hrun

/-- What an operation makes of a sound piece: a sound one, unless it writes back what a
`leavePiece` call has read. -/
theorem perform_writesMembers {op : Operation} (h : WritesMembers pieceId owner op)
    (hsound : ∀ piece, c.doc (.pieces pieceId) = some piece → Sound owner piece) :
    (∀ piece, (Operation.perform op c).2.doc (.pieces pieceId) = some piece → Sound owner piece) ∧
      (∀ uid entries, WritesBack pieceId uid entries op → c.doc (.pieces pieceId) = none) ∨
    ∃ uid entries stale piece, WritesBack pieceId uid entries op ∧ Lists entries stale ∧
      uid ≠ owner ∧ uid ∉ stale ∧ owner ∉ stale ∧ c.doc (.pieces pieceId) = some piece ∧
      (Operation.perform op c).2.doc (.pieces pieceId) =
        some (Write.changed piece (leaveChanges uid entries)) := by
  cases op with
  | get path => exact .inl ⟨hsound, fun _ _ hback => by cases hback⟩
  | list query => exact .inl ⟨hsound, fun _ _ hback => by cases hback⟩
  | commit writes =>
    obtain ⟨write, rfl, hwrite⟩ := h
    rcases hwrite with hpath | rfl | ⟨uid, entries, stale, rfl, hlists, hne, huid, hout⟩
    · left
      refine ⟨?_, ?_⟩
      · intro piece hpiece
        rw [Operation.perform_write] at hpiece
        split at hpiece
        · rw [Cloud.doc_store_of_ne _ (Ne.symm hpath)] at hpiece
          exact hsound piece hpiece
        · exact hsound piece hpiece
      · intro uid entries hback
        obtain rfl := List.head_eq_of_cons_eq (Operation.commit.inj hback)
        exact absurd rfl hpath
    · left
      refine ⟨?_, fun uid entries hback => by cases hback⟩
      intro piece hpiece
      rw [Operation.perform_write] at hpiece
      simp [Write.result, Write.path] at hpiece
    · rcases hdoc : c.doc (.pieces pieceId) with _ | piece
      · left
        refine ⟨?_, fun _ _ _ => rfl⟩
        simp [Operation.perform_write, Write.result, Write.path, hdoc]
      · right
        refine ⟨uid, entries, stale, piece, rfl, hlists, hne, huid, hout, rfl, ?_⟩
        simp [Operation.perform_write, Write.result, Write.path, hdoc]
  | transaction body =>
    left
    refine ⟨?_, fun _ _ hback => by cases hback⟩
    change ∀ piece, (c.settle (body.run c)).2.doc (.pieces pieceId) = some piece → _
    rcases hrun : body.run c with failure | c'
    · exact hsound
    · rcases h with ⟨uid, name, email, pieceId', rfl⟩ | ⟨uid, pieceId', rfl, hne⟩
      · exact sound_joinPiece hsound hrun
      · exact sound_dropFromPiece hne hsound hrun

theorem issues_writesMembers (emailKey : String → String) (pieceId owner : String)
    (request : Request) :
    (request.program emailKey).Issues (Sees pieceId owner) (WritesMembers pieceId owner) := by
  have hget : ∀ path, WritesMembers pieceId owner (.get path) := fun _ => trivial
  have hdelete : ∀ path, WritesMembers pieceId owner (.commit [.delete path]) := by
    intro path
    by_cases hpath : path = .pieces pieceId
    · exact ⟨_, rfl, .inr (.inl (by rw [hpath]))⟩
    · exact ⟨_, rfl, .inl hpath⟩
  cases request with
  | sendInvite auth data messageId now =>
    exact issues_sendInvite hget emailKey auth data messageId now
      fun uid fields => ⟨_, rfl, .inl (by simp [Write.path])⟩
  | acceptInvite auth data =>
    exact issues_acceptInvite hget auth data (fun uid name email q => .inl ⟨uid, name, email, q, rfl⟩)
      fun uid messageId => ⟨_, rfl, .inl (by simp [Write.path])⟩
  | leavePiece auth data =>
    refine issues_leavePiece hget hdelete auth data ?_
    intro uid q piece entries hsees hout hentries
    refine ⟨_, rfl, ?_⟩
    by_cases hq : q = pieceId
    · subst hq
      obtain ⟨members, howner, hrep⟩ := hsees rfl piece rfl
      obtain ⟨entries', hentries', hlists⟩ := hrep.collaborators
      obtain ⟨entries'', hwithout, hlists⟩ := hlists.withoutUid uid
      rw [hentries'] at hentries
      obtain rfl := Option.some.inj (hwithout.symm.trans hentries)
      refine .inr (.inr ⟨uid, entries'', members.erase uid, rfl, hlists, ?_, by simp, by simp [howner]⟩)
      rintro rfl
      exact hout hrep.ownerId
    · exact .inl (by simp [Write.path, hq])
  | deleteAccount auth recent schedule =>
    refine issues_deleteAccount hget (fun _ => trivial) hdelete auth recent schedule ?_
    intro uid pieces hsees piece hpiece hout
    refine .inr ⟨uid, _, rfl, ?_⟩
    obtain ⟨hselects, hsound⟩ := hsees piece hpiece
    rcases piece with ⟨path, fields⟩
    rintro hq rfl
    cases path with
    | pieces q =>
      obtain ⟨members, -, hrep⟩ := hsound (congrArg DocPath.pieces hq)
      exact hout hrep.ownerId
    | _ => cases hselects

/-! ## Runs of the callables -/

namespace Server

variable (emailKey : String → String)

/-- What happens when no client writes: new calls, and their next operations. -/
inductive CallEvent where
  | call (request : Request)
  | advance (i : Nat)

def CallEvent.event : CallEvent → ServerEvent
  | call request => .call request
  | advance i => .advance i

def stepCalls (s : Server) (event : CallEvent) : Option Server := step emailKey s event.event

/-- The stored piece says who takes part, once and consistently. -/
def Materialized (pieceId : String) (s : Server) : Prop :=
  ∀ piece, s.cloud.doc (.pieces pieceId) = some piece →
    ∃ owner members, Represents piece owner members

/-- A `leavePiece` call that is about to write back the collaborators it has read finds the same
ones stored, its caller apart. -/
def LeavesAsRead (pieceId : String) (s : Server) : CallEvent → Prop
  | .call _ => True
  | .advance i => ∀ call op uid entries piece, s.running[i]? = some call →
    call.program.next? = some op → WritesBack pieceId uid entries op →
    s.cloud.doc (.pieces pieceId) = some piece → ∀ other, other ≠ uid →
      (Names (.array entries) other ↔ Names (piece.read "collaborators") other)

/-- What every state of a run keeps, whatever `leavePiece` writes back. -/
structure Calling (pieceId owner : String) (s : Server) : Prop where
  ownerId : ∀ piece, s.cloud.doc (.pieces pieceId) = some piece →
    piece.read "ownerId" = .string owner ∧ ¬Names (piece.read "collaborators") owner
  calls : ∀ call ∈ s.running,
    call.program.Issues (Sees pieceId owner) (WritesMembers pieceId owner)

variable {emailKey} {s t : Server}

theorem Calling.sound (h : Calling pieceId owner s) (hmat : s.Materialized pieceId) :
    ∀ piece, s.cloud.doc (.pieces pieceId) = some piece → Sound owner piece := by
  intro piece hpiece
  obtain ⟨owner', members, hrep⟩ := hmat piece hpiece
  obtain ⟨hownerId, hnames⟩ := h.ownerId piece hpiece
  obtain rfl := Value.string.inj (hrep.ownerId.symm.trans hownerId)
  obtain ⟨entries, hentries, hlists⟩ := hrep.collaborators
  rw [hentries, hlists.names_iff] at hnames
  exact ⟨members, hnames, hrep⟩

/-- What a call can get to see of a sound piece. -/
theorem sees_of_sound {op : Operation} {response : op.Response}
    (hsound : ∀ piece, c.doc (.pieces pieceId) = some piece → Sound owner piece)
    (hr : (Operation.perform op c).1 = .ok response) : Sees pieceId owner op response := by
  cases op with
  | get path =>
    obtain rfl := Except.ok.inj hr
    rintro rfl
    exact hsound
  | list query =>
    obtain rfl := Except.ok.inj hr
    rintro ⟨path, fields⟩ hresult
    obtain ⟨hdoc, hselects⟩ := Cloud.mem_list.mp hresult
    refine ⟨hselects, ?_⟩
    rintro rfl
    exact hsound fields hdoc
  | commit writes => trivial
  | transaction body => trivial

theorem calling_step {event : CallEvent} (h : Calling pieceId owner s)
    (hmat : s.Materialized pieceId) (hstep : stepCalls emailKey s event = some t) :
    Calling pieceId owner t := by
  cases event with
  | call request =>
    obtain rfl := Option.some.inj hstep
    refine ⟨h.ownerId, ?_⟩
    intro call hcall
    rcases List.mem_append.mp hcall with hcall | hcall
    · exact h.calls call hcall
    · obtain rfl := List.mem_singleton.mp hcall
      exact issues_writesMembers emailKey pieceId owner request
  | advance i =>
    obtain ⟨call, op, k, hi, hprogram, rfl⟩ := advance_step.mp hstep
    have hsound := h.sound hmat
    have hissues := h.calls call (List.mem_of_getElem? hi)
    refine ⟨?_, ?_⟩
    · rw [advance_cloud hprogram]
      intro piece' hpiece'
      rcases perform_writesMembers (hissues.next (congrArg next? hprogram)) hsound with
        ⟨hsound', -⟩ | ⟨uid, entries, stale, piece, -, hlists, -, -, hout, hdoc, hdoc'⟩
      · exact (hsound' piece' hpiece').ownerId
      · obtain rfl := Option.some.inj (hdoc'.symm.trans hpiece')
        have hread : (Write.changed piece (leaveChanges uid entries)).read "collaborators" =
            .array entries := by simp [Write.changed, Fields.read_set, Change.apply]
        refine ⟨?_, by rwa [hread, hlists.names_iff]⟩
        simpa [Write.changed, Fields.read_set] using (h.ownerId piece hdoc).1
    · intro other hother
      rcases List.mem_or_eq_of_mem_set hother with hother | rfl
      · exact h.calls other hother
      · exact hissues.advance Operation.perform s.cloud fun _ _ _ hr => sees_of_sound hsound hr

/-- One step keeps the piece materialized exactly when it is not a `leavePiece` that writes back
other collaborators than those that are stored. -/
theorem materialized_step {event : CallEvent} (h : Calling pieceId owner s)
    (hmat : s.Materialized pieceId) (hstep : stepCalls emailKey s event = some t) :
    t.Materialized pieceId ↔ LeavesAsRead pieceId s event := by
  cases event with
  | call request =>
    obtain rfl := Option.some.inj hstep
    exact iff_of_true hmat trivial
  | advance i =>
    obtain ⟨call, op, k, hi, hprogram, rfl⟩ := advance_step.mp hstep
    have hsound := h.sound hmat
    have hissues := h.calls call (List.mem_of_getElem? hi)
    have hnext : call.program.next? = some op := congrArg next? hprogram
    have hcond : LeavesAsRead pieceId s (.advance i) ↔ ∀ uid entries piece,
        WritesBack pieceId uid entries op → s.cloud.doc (.pieces pieceId) = some piece →
        ∀ other, other ≠ uid →
          (Names (.array entries) other ↔ Names (piece.read "collaborators") other) := by
      simp only [LeavesAsRead, hi, Option.some.injEq]
      constructor
      · intro hreads uid entries piece
        exact hreads call op uid entries piece rfl hnext
      · rintro hreads _ op' uid entries piece rfl hop
        obtain rfl := Option.some.inj (hnext.symm.trans hop)
        exact hreads uid entries piece
    rw [hcond, Materialized, advance_cloud hprogram]
    rcases perform_writesMembers (hissues.next hnext) hsound with ⟨hsound', hnone⟩ | hback
    · refine iff_of_true ?_ ?_
      · intro piece' hpiece'
        obtain ⟨members, -, hrep⟩ := hsound' piece' hpiece'
        exact ⟨owner, members, hrep⟩
      · intro uid entries piece hwrites hdoc
        simp [hnone uid entries hwrites] at hdoc
    · obtain ⟨uid, entries, stale, piece, rfl, hlists, hne, huid, hout, hdoc, hdoc'⟩ := hback
      obtain ⟨members, howner, hrep⟩ := hsound piece hdoc
      have hleave := represents_leave hrep howner hlists hne huid hout
      simp only [hdoc', hdoc, Option.some.injEq, forall_eq']
      rw [hleave]
      constructor
      · rintro hsame uid' entries' _ hwrites rfl
        obtain ⟨rfl, rfl⟩ : entries' = entries ∧ uid' = uid := by
          simpa [WritesBack, eq_comm] using hwrites
        exact hsame
      · intro hsame
        exact hsame uid entries piece rfl rfl

/-- The piece stays materialized exactly in the runs in which every `leavePiece` finds, when it
writes, the collaborators that it has read. -/
theorem materialized_iff (emailKey : String → String) {events : List CallEvent}
    (hdoc : s.cloud.doc (.pieces pieceId) = some piece)
    (howner : piece.read "ownerId" = .string owner)
    (hids : piece.read "participantIds" = .array [.string owner])
    (hcollaborators : piece.read "collaborators" = .array []) (hidle : s.running = []) :
    Always (stepCalls emailKey) (Materialized pieceId) s events ↔
      EachStep (stepCalls emailKey) (LeavesAsRead pieceId) s events := by
  have hsound : Sound owner piece := by
    refine ⟨∅, by simp, howner, ⟨[owner], hids, List.nodup_singleton owner, by simp⟩, [],
      hcollaborators, lists_nil⟩
  have hmat : s.Materialized pieceId := by
    intro piece' hpiece'
    obtain rfl := Option.some.inj (hdoc.symm.trans hpiece')
    obtain ⟨members, -, hrep⟩ := hsound
    exact ⟨owner, members, hrep⟩
  have hcalling : Calling pieceId owner s := by
    refine ⟨?_, by simp [hidle]⟩
    intro piece' hpiece'
    obtain rfl := Option.some.inj (hdoc.symm.trans hpiece')
    exact hsound.ownerId
  refine always_iff_eachStep (fun _ _ _ h hp hs => calling_step h hp hs)
    (fun _ _ _ h hp hs => materialized_step h hp hs) ?_ hcalling hmat
  intro u event hnone
  cases event with
  | call request => trivial
  | advance i =>
    intro call op uid entries current hi hop
    simp [stepCalls, CallEvent.event, step, hi, hop] at hnone

/-! ## A collaborator lost -/

/-- A new piece of `ann`'s, with nobody else in it. -/
def newPiece : Fields := Assoc.ofList [("title", .string "Sonata"), ("ownerId", .string "ann"),
  ("participantIds", .array [.string "ann"]), ("collaborators", .array [])]

/-- An unread invite to the piece. -/
def inviteTo (uid : String) : Fields := inviteMessage uid ⟨"ann", none, none⟩ "piece" 0

/-- `ann` has invited `bob` and `carol`. -/
def bothInvited : Server where
  cloud := ((Cloud.empty.store (.pieces "piece") (some newPiece)).store
    (.userInbox "bob" "message") (some (inviteTo "bob"))).store
    (.userInbox "carol" "message") (some (inviteTo "carol"))
  running := []
  replies := []

/-- `bob` joins, and `carol` joins while `bob` leaves. -/
def carolJoinsMeanwhile : List CallEvent :=
  [.call (.acceptInvite (some ⟨"bob", none, none⟩) [("messageId", .string "message")]),
    .advance 0, .advance 0, .advance 0,
    .call (.leavePiece (some ⟨"bob", none, none⟩) [("pieceId", .string "piece")]),
    .advance 1,
    .call (.acceptInvite (some ⟨"carol", none, none⟩) [("messageId", .string "message")]),
    .advance 2, .advance 2, .advance 2,
    .advance 1]

theorem materialized_iff_carolJoins :
    bothInvited.cloud.doc (.pieces "piece") = some newPiece ∧
      (Always (stepCalls id) (Materialized "piece") bothInvited carolJoinsMeanwhile ↔
        EachStep (stepCalls id) (LeavesAsRead "piece") bothInvited carolJoinsMeanwhile) := by
  have hdoc : bothInvited.cloud.doc (.pieces "piece") = some newPiece := by decide +kernel
  have howner : newPiece.read "ownerId" = .string "ann" := by decide
  exact ⟨hdoc, materialized_iff id hdoc howner (by decide) (by decide) rfl⟩

/-- `carol` still takes part, but is no collaborator any more. -/
theorem carol_lost :
    bothInvited.cloud.doc (.pieces "piece") = some newPiece ∧
      newPiece.read "participantIds" = .array [newPiece.read "ownerId"] ∧
      newPiece.read "collaborators" = .array [] ∧ bothInvited.running = [] ∧
      ¬Always (stepCalls id) (Materialized "piece") bothInvited carolJoinsMeanwhile := by
  refine ⟨by decide +kernel, by decide, by decide, rfl, fun halways => ?_⟩
  have hcarol : (run (stepCalls id) bothInvited carolJoinsMeanwhile).any (fun s =>
      (s.cloud.doc (.pieces "piece")).any fun piece => TakesPart piece "carol" ∧
        piece.read "ownerId" = .string "ann" ∧ piece.read "collaborators" = .array []) = true := by
    decide +kernel
  obtain ⟨s, hrun, hcarol⟩ := (Option.any_eq_true _ _).mp hcarol
  obtain ⟨piece, hpiece, hcarol⟩ := (Option.any_eq_true _ _).mp hcarol
  obtain ⟨hpart, hann, hempty⟩ := of_decide_eq_true hcarol
  obtain ⟨owner, members, hrep⟩ := halways.last hrun piece hpiece
  obtain rfl := Value.string.inj (hann.symm.trans hrep.ownerId)
  obtain ⟨entries, hentries, hlists⟩ := hrep.collaborators
  have hmember := hrep.takesPart_iff.mp hpart
  rw [Finset.mem_insert, ← hlists.names_iff, ← hentries, hempty] at hmember
  rcases hmember with hmember | ⟨_, hnone, entry, hentry, -⟩
  · exact absurd hmember (by decide)
  · obtain rfl := Value.array.inj hnone
    cases hentry

end Server

end Duet
