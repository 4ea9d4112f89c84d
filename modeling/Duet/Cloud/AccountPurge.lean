import Duet.Cloud.Cascade
import Duet.Cloud.Materialization

/-!
# The purge of an account

`deleteAccount` and the triggers that it sets off, from the documents as they are when a user asks
for it; attempts may fail anywhere and be made again.

## Main definitions

* `Purged`, `Contained` — nothing of the user's is left, and nothing else has changed.
* `PurgeCovers` — everything of the user's is where the purge looks for it.
* `Backend.PurgeStep` — the steps of the purge.

## Main results

* `Backend.purged_iff` — the purge is complete and contained exactly where it covers everything.
* `Backend.not_purged` — a watermark that is left behind.
-/

namespace Duet

open Lib Program

/-! ## What a purge is for -/

/-- Nothing that the user has drawn or said is left on the piece. -/
def SliceGone (uid pieceId : String) (c : Cloud) : Prop :=
  c.doc (.layers pieceId uid) = none ∧
    ∀ noteId note, c.doc (.notes pieceId noteId) = some note → note.read "authorId" ≠ .string uid

/-- Nothing of the user's is left. -/
structure Purged (uid : String) (c : Cloud) : Prop where
  directory : ∀ emailKey entry, c.doc (.usersByEmail emailKey) = some entry →
    entry.read "uid" ≠ .string uid
  deviceTokens : c.doc (.deviceTokens uid) = none
  inbox : ∀ messageId, c.doc (.userInbox uid messageId) = none
  rateLimits : c.doc (.rateLimits uid) = none
  pieces : ∀ pieceId piece, c.doc (.pieces pieceId) = some piece →
    piece.read "ownerId" ≠ .string uid ∧ ¬TakesPart piece uid ∧
      ¬Names (piece.read "collaborators") uid
  slices : ∀ pieceId, SliceGone uid pieceId c
  reads : ∀ pieceId, c.doc (.reads pieceId uid) = none

/-- The piece is the user's. -/
def OwnsPiece (uid : String) (c : Cloud) (pieceId : String) : Prop :=
  ∃ piece, c.doc (.pieces pieceId) = some piece ∧ piece.read "ownerId" = .string uid

/-- The document is owned by the user, authored by the user or keyed to the user; what is under a
piece is owned with it. -/
def BelongsTo (uid : String) (c : Cloud) (fields : Fields) : DocPath → Prop
  | .usersByEmail _ => fields.read "uid" = .string uid
  | .deviceTokens uid' | .userInbox uid' _ | .rateLimits uid' => uid' = uid
  | .pieces _ => fields.read "ownerId" = .string uid
  | .layers pieceId uid' | .reads pieceId uid' => uid' = uid ∨ OwnsPiece uid c pieceId
  | .notes pieceId _ => fields.read "authorId" = .string uid ∨ OwnsPiece uid c pieceId

/-- The membership arrays without the user; the other fields are the same. -/
structure Without (uid : String) (before after : Fields) : Prop where
  others : ∀ key, key ≠ "participantIds" → key ≠ "collaborators" → after.get key = before.get key
  participants : ∃ ids, arrayOrEmpty? (before.read "participantIds") = some ids ∧
    after.read "participantIds" = .array (ids.filter fun id => id ≠ .string uid)
  collaborators : ∃ entries, arrayOrEmpty? (before.read "collaborators") = some entries ∧
    after.read "collaborators" =
      .array (entries.filter fun entry => fieldOf entry "uid" ≠ .string uid)

/-- Nothing comes to exist, and nothing changes but the membership arrays, which lose the user. -/
def Shrinks (uid : String) (c c' : Cloud) : Prop :=
  ∀ path after, c'.doc path = some after → ∃ before, c.doc path = some before ∧
    (after = before ∨ (∃ pieceId, path = .pieces pieceId) ∧ Without uid before after)

/-- What does not belong to the user is there as before, and nothing else is. -/
structure Contained (uid : String) (c c' : Cloud) : Prop where
  shrinks : Shrinks uid c c'
  kept : ∀ path fields, c.doc path = some fields → ¬BelongsTo uid c fields path →
    c'.doc path ≠ none

/-! ## What a purge reaches -/

/-- The user takes part in the piece and owns it. -/
def Mine (uid : String) (c : Cloud) (pieceId : String) : Prop :=
  ∃ piece, c.doc (.pieces pieceId) = some piece ∧ TakesPart piece uid ∧
    piece.read "ownerId" = .string uid

/-- The user takes part in a piece of somebody else's. -/
def Shared (uid : String) (c : Cloud) (pieceId : String) : Prop :=
  ∃ piece, c.doc (.pieces pieceId) = some piece ∧ TakesPart piece uid ∧
    piece.read "ownerId" ≠ .string uid

/-- The documents that are deleted. -/
def Swept (uid : String) (c : Cloud) (fields : Fields) : DocPath → Prop
  | .usersByEmail _ => fields.read "uid" = .string uid
  | .deviceTokens uid' | .userInbox uid' _ => uid' = uid
  | .pieces pieceId | .reads pieceId _ => Mine uid c pieceId
  | .layers pieceId uid' => Mine uid c pieceId ∨ Shared uid c pieceId ∧ uid' = uid
  | .notes pieceId _ =>
    Mine uid c pieceId ∨ Shared uid c pieceId ∧ fields.read "authorId" = .string uid
  | .rateLimits _ => False

/-- All that there is of the user is where a purge looks: the user has never looked anybody up, is
listed in the participants of every piece that names the user, has no watermark on others' pieces,
and has left nothing on pieces that the user does not take part in. -/
structure PurgeCovers (uid : String) (c : Cloud) : Prop where
  rateLimits : c.doc (.rateLimits uid) = none
  listed : ∀ pieceId piece, c.doc (.pieces pieceId) = some piece → ¬TakesPart piece uid →
    piece.read "ownerId" ≠ .string uid ∧ ¬Names (piece.read "collaborators") uid
  reads : ∀ pieceId, ¬Mine uid c pieceId → c.doc (.reads pieceId uid) = none
  slices : ∀ pieceId, ¬Mine uid c pieceId → ¬Shared uid c pieceId → SliceGone uid pieceId c

/-- The documents while a purge goes on, which began with `c₀`. -/
structure Purging (uid : String) (c₀ c : Cloud) : Prop where
  shrinks : Shrinks uid c₀ c
  swept : ∀ path fields, c₀.doc path = some fields → c.doc path = none → Swept uid c₀ fields path
  untouched : ∀ pieceId piece, ¬Shared uid c₀ pieceId → c.doc (.pieces pieceId) = some piece →
    c₀.doc (.pieces pieceId) = some piece
  -- the slice goes first
  dropped : ∀ pieceId piece, Shared uid c₀ pieceId → c.doc (.pieces pieceId) = some piece →
    ¬TakesPart piece uid → SliceGone uid pieceId c

/-- A step of a purge. -/
def Purges (uid : String) (c₀ c c' : Cloud) : Prop :=
  Purging uid c₀ c → Purging uid c₀ c' ∧ Shrinks uid c c'

variable {uid pieceId : String} {c₀ c c' c'' : Cloud} {before after : Fields}

/-! ## Shrinking -/

namespace Without

theorem ownerId (h : Without uid before after) : after.read "ownerId" = before.read "ownerId" := by
  rw [Fields.read, Fields.read, h.others "ownerId" (by decide) (by decide)]

theorem takesPart {other : String} (h : Without uid before after) (hpart : TakesPart after other) :
    TakesPart before other ∧ other ≠ uid := by
  obtain ⟨ids, hids, hafter⟩ := h.participants
  rw [takesPart_iff_mem (by rw [hafter]; rfl), List.mem_filter] at hpart
  refine ⟨(takesPart_iff_mem hids).mpr hpart.1, ?_⟩
  rintro rfl
  simpa using hpart.2

theorem not_names (h : Without uid before after) : ¬Names (after.read "collaborators") uid := by
  obtain ⟨entries, -, hafter⟩ := h.collaborators
  rintro ⟨entries', hentries, entry, hentry, huid⟩
  obtain rfl := Value.array.inj (hafter.symm.trans hentries)
  simpa [huid] using (List.mem_filter.mp hentry).2

theorem trans {last : Fields} (h : Without uid before after) (h' : Without uid after last) :
    Without uid before last := by
  obtain ⟨ids, hids, hafter⟩ := h.participants
  obtain ⟨ids', hids', hlast⟩ := h'.participants
  obtain ⟨entries, hentries, hafterEntries⟩ := h.collaborators
  obtain ⟨entries', hentries', hlastEntries⟩ := h'.collaborators
  refine ⟨fun key hp hc => (h'.others key hp hc).trans (h.others key hp hc), ⟨ids, hids, ?_⟩,
    entries, hentries, ?_⟩
  · rw [hafter] at hids'
    obtain rfl := Option.some.inj hids'
    rw [hlast, List.filter_filter]
    simp
  · rw [hafterEntries] at hentries'
    obtain rfl := Option.some.inj hentries'
    rw [hlastEntries, List.filter_filter]
    simp

end Without

namespace Shrinks

theorem refl (c : Cloud) : Shrinks uid c c := fun _ after h => ⟨after, h, .inl rfl⟩

theorem trans (h : Shrinks uid c c') (h' : Shrinks uid c' c'') : Shrinks uid c c'' := by
  intro path last hlast
  obtain ⟨after, hafter, hchange'⟩ := h' path last hlast
  obtain ⟨before, hbefore, hchange⟩ := h path after hafter
  refine ⟨before, hbefore, ?_⟩
  obtain rfl | ⟨hpath, hwithout'⟩ := hchange'
  · exact hchange
  · obtain rfl | ⟨-, hwithout⟩ := hchange
    · exact .inr ⟨hpath, hwithout'⟩
    · exact .inr ⟨hpath, hwithout.trans hwithout'⟩

theorem missing (h : Shrinks uid c c') {path : DocPath} (hpath : c.doc path = none) :
    c'.doc path = none := by
  cases hafter : c'.doc path with
  | none => rfl
  | some after =>
    obtain ⟨before, hbefore, -⟩ := h path after hafter
    rw [hpath] at hbefore
    cases hbefore

/-- Only pieces change. -/
theorem same (h : Shrinks uid c c') {path : DocPath} (hpath : ∀ pieceId, path ≠ .pieces pieceId)
    (hafter : c'.doc path = some after) : c.doc path = some after := by
  obtain ⟨before, hbefore, rfl | ⟨⟨pieceId, rfl⟩, -⟩⟩ := h path after hafter
  · exact hbefore
  · exact absurd rfl (hpath pieceId)

/-- Who takes part in a piece did before. -/
theorem piece (h : Shrinks uid c c') (hafter : c'.doc (.pieces pieceId) = some after) :
    ∃ before, c.doc (.pieces pieceId) = some before ∧
      after.read "ownerId" = before.read "ownerId" ∧
        ∀ other, TakesPart after other → TakesPart before other := by
  obtain ⟨before, hbefore, rfl | ⟨-, hwithout⟩⟩ := h _ after hafter
  · exact ⟨after, hbefore, rfl, fun _ => id⟩
  · exact ⟨before, hbefore, hwithout.ownerId, fun _ hpart => (hwithout.takesPart hpart).1⟩

theorem sliceGone (h : Shrinks uid c c') (hgone : SliceGone uid pieceId c) :
    SliceGone uid pieceId c' :=
  ⟨h.missing hgone.1, fun noteId note hnote => hgone.2 noteId note (h.same nofun hnote)⟩

theorem delete (path : DocPath) : Shrinks uid c (c.store path none) := by
  intro path' after hafter
  rw [Cloud.doc_store] at hafter
  split_ifs at hafter
  exact ⟨after, hafter, .inl rfl⟩

end Shrinks

theorem Purges.refl (c : Cloud) : Purges uid c₀ c c := fun h => ⟨h, .refl c⟩

theorem Purges.trans (h : Purges uid c₀ c c') (h' : Purges uid c₀ c' c'') :
    Purges uid c₀ c c'' := by
  intro hc
  obtain ⟨hc', hshrinks⟩ := h hc
  obtain ⟨hc'', hshrinks'⟩ := h' hc'
  exact ⟨hc'', hshrinks.trans hshrinks'⟩

theorem Purging.start (c₀ : Cloud) : Purging uid c₀ c₀ where
  shrinks := .refl c₀
  swept := fun path fields hfields hnone => by rw [hfields] at hnone; cases hnone
  untouched := fun _ _ _ hpiece => hpiece
  dropped := fun pieceId piece ⟨piece', hpiece', hpart, _⟩ hpiece hout => by
    obtain rfl := Option.some.inj (hpiece.symm.trans hpiece')
    exact absurd hpart hout

/-! ## The operations -/

/-- A document that is deleted, unless it has never been there. -/
def MaySweep (uid : String) (c₀ : Cloud) (path : DocPath) : Prop :=
  ∀ fields, c₀.doc path = some fields → Swept uid c₀ fields path

theorem purges_delete {path : DocPath} (hsweep : MaySweep uid c₀ path) :
    Purges uid c₀ c (Operation.perform (.commit [.delete path]) c).2 := by
  intro h
  have hstore : (Operation.perform (.commit [.delete path]) c).2 = c.store path none :=
    Operation.perform_write _ _
  have hshrinks : Shrinks uid c (c.store path none) := .delete path
  rw [hstore]
  refine ⟨⟨h.shrinks.trans hshrinks, ?_, ?_, ?_⟩, hshrinks⟩
  · intro path' fields hfields hnone
    rw [Cloud.doc_store] at hnone
    split_ifs at hnone with hpath
    · subst hpath
      exact hsweep fields hfields
    · exact h.swept path' fields hfields hnone
  · intro q piece hout hpiece
    rw [Cloud.doc_store] at hpiece
    split_ifs at hpiece
    exact h.untouched q piece hout hpiece
  · intro q piece hshared hpiece hout
    rw [Cloud.doc_store] at hpiece
    split_ifs at hpiece
    exact hshrinks.sliceGone (h.dropped q piece hshared hpiece hout)

/-- What the transaction of `deleteAccount` does. -/
theorem run_dropFromPiece (h : (dropFromPiece uid pieceId).run c = .ok c') :
    c.doc (.pieces pieceId) = none ∧ c' = c ∨ ∃ before after,
      c.doc (.pieces pieceId) = some before ∧ Without uid before after ∧
        c' = c.store (.pieces pieceId) (some after) := by
  simp only [dropFromPiece, Transaction.run] at h
  cases hdoc : c.doc (.pieces pieceId) with
  | none =>
    rw [hdoc] at h
    exact .inl ⟨rfl, (Except.ok.inj h).symm⟩
  | some before =>
    rw [hdoc] at h
    dsimp only at h
    split at h
    · rename_i ids kept hids hkept
      obtain ⟨fields, hresult, rfl⟩ := Cloud.commit_singleton.mp h
      rw [Write.path, hdoc, Write.result] at hresult
      obtain rfl := Except.ok.inj hresult
      obtain ⟨entries, hentries, hwithout⟩ := Option.bind_eq_some_iff.mp hkept
      rw [withoutUid?] at hwithout
      split_ifs at hwithout
      obtain rfl := Option.some.inj hwithout
      refine .inr ⟨before, _, rfl, ⟨fun key hp hc => ?_, ⟨ids, hids, ?_⟩, entries, hentries, ?_⟩,
        rfl⟩
      · simp only [Write.changed, List.foldl_cons, List.foldl_nil]
        rw [Assoc.get_set_of_ne _ hc, Assoc.get_set_of_ne _ hp]
      · simp [Write.changed, Fields.read_set, Change.apply]
      · simp [Write.changed, Fields.read_set, Change.apply]
    · cases h

theorem purges_drop (hshared : Shared uid c₀ pieceId) (hslice : SliceGone uid pieceId c) :
    Purges uid c₀ c (Operation.perform (.transaction (dropFromPiece uid pieceId)) c).2 ∧
      ((Operation.perform (.transaction (dropFromPiece uid pieceId)) c).1 = .ok () →
        ∀ piece, (Operation.perform (.transaction (dropFromPiece uid pieceId)) c).2.doc
          (.pieces pieceId) = some piece → ¬TakesPart piece uid) := by
  change Purges uid c₀ c (c.settle ((dropFromPiece uid pieceId).run c)).2 ∧
    ((c.settle ((dropFromPiece uid pieceId).run c)).1 = .ok () → ∀ piece,
      (c.settle ((dropFromPiece uid pieceId).run c)).2.doc (.pieces pieceId) = some piece →
        ¬TakesPart piece uid)
  cases hrun : (dropFromPiece uid pieceId).run c with
  | error failure => exact ⟨.refl c, fun hok => by cases hok⟩
  | ok c' =>
    obtain ⟨hnone, rfl⟩ | ⟨before, after, hbefore, hwithout, rfl⟩ := run_dropFromPiece hrun
    · refine ⟨.refl c', fun _ piece hpiece => ?_⟩
      rw [show (c'.settle (.ok c')).2 = c' from rfl, hnone] at hpiece
      cases hpiece
    · have hafter : ∀ piece, (c.store (.pieces pieceId) (some after)).doc (.pieces pieceId) =
          some piece → ¬TakesPart piece uid := by
        intro piece hpiece hpart
        rw [Cloud.doc_store_self] at hpiece
        obtain rfl := Option.some.inj hpiece
        exact (hwithout.takesPart hpart).2 rfl
      have hshrinks : Shrinks uid c (c.store (.pieces pieceId) (some after)) := by
        intro path fields hfields
        rw [Cloud.doc_store] at hfields
        split_ifs at hfields with hpath
        · obtain rfl := Option.some.inj hfields
          exact ⟨before, hpath ▸ hbefore, .inr ⟨⟨pieceId, hpath⟩, hwithout⟩⟩
        · exact ⟨fields, hfields, .inl rfl⟩
      refine ⟨fun h => ⟨⟨h.shrinks.trans hshrinks, ?_, ?_, ?_⟩, hshrinks⟩, fun _ => hafter⟩
      · intro path fields hfields hnone
        have hgone : c.doc path = none := by
          have hkept := hnone
          change (c.store (.pieces pieceId) (some after)).doc path = none at hkept
          rw [Cloud.doc_store] at hkept
          split_ifs at hkept
          exact hkept
        exact h.swept path fields hfields hgone
      · intro q piece hout hpiece
        obtain rfl | hq := eq_or_ne q pieceId
        · exact absurd hshared hout
        · change (c.store (.pieces pieceId) (some after)).doc (.pieces q) = some piece at hpiece
          rw [Cloud.doc_store_of_ne _ (by simpa using hq)] at hpiece
          exact h.untouched q piece hout hpiece
      · intro q piece hq hpiece hout
        refine hshrinks.sliceGone ?_
        obtain rfl | hne := eq_or_ne q pieceId
        · exact hslice
        · change (c.store (.pieces pieceId) (some after)).doc (.pieces q) = some piece at hpiece
          rw [Cloud.doc_store_of_ne _ (by simpa using hne)] at hpiece
          exact h.dropped q piece hq hpiece hout

/-! ## The programs -/

/-- Deletes, one after another. -/
theorem secures_deletes (h : Purging uid c₀ c) {writes : List Write}
    (hdeletes : ∀ write ∈ writes, ∃ path, write = .delete path ∧ MaySweep uid c₀ path) :
    (commitEach writes).Secures Operation.perform (Purges uid c₀) (fun _ c' =>
      Purging uid c₀ c' ∧ Shrinks uid c c' ∧ ∀ path, .delete path ∈ writes → c'.doc path = none)
      c := by
  induction writes generalizing c with
  | nil =>
    intro c' hrely
    obtain ⟨hc', hshrinks⟩ := hrely h
    exact ⟨hc', hshrinks, fun _ hp => absurd hp List.not_mem_nil⟩
  | cons write writes ih =>
    obtain ⟨deleted, rfl, hsweep⟩ := hdeletes write List.mem_cons_self
    intro t hrely
    obtain ⟨ht, hshrinks⟩ := hrely h
    have hmove : Purges uid c₀ t (Operation.perform (.commit [.delete deleted]) t).2 :=
      purges_delete hsweep
    obtain ⟨hu, hshrinks'⟩ := hmove ht
    refine ⟨hmove, fun _ _ => (ih hu fun w hw => hdeletes w (List.mem_cons_of_mem _ hw)).mono ?_⟩
    intro _ c' ⟨hc', hshrinks'', hgone⟩
    refine ⟨hc', hshrinks.trans (hshrinks'.trans hshrinks''), fun path hpath => ?_⟩
    obtain heq | hmem := List.mem_cons.mp hpath
    · obtain rfl := Write.delete.inj heq
      refine hshrinks''.missing ?_
      rw [Operation.perform_write]
      exact Cloud.doc_store_self _ _ _
    · exact hgone path hmem

/-- Whatever the order. -/
theorem secures_deletes_order (schedule : Schedule) (h : Purging uid c₀ c) {writes : List Write}
    (hdeletes : ∀ write ∈ writes, ∃ path, write = .delete path ∧ MaySweep uid c₀ path) :
    (commitEach (schedule.order writes)).Secures Operation.perform (Purges uid c₀) (fun _ c' =>
      Purging uid c₀ c' ∧ Shrinks uid c c' ∧ ∀ path, .delete path ∈ writes → c'.doc path = none)
      c := by
  have hmem : ∀ write, write ∈ schedule.order writes ↔ write ∈ writes :=
    fun write => (schedule.perm writes).mem_iff
  refine (secures_deletes h fun write hw => hdeletes write ((hmem write).mp hw)).mono ?_
  intro _ c' ⟨hc', hshrinks, hgone⟩
  exact ⟨hc', hshrinks, fun path hpath => hgone path ((hmem _).mpr hpath)⟩

/-- A document that a purge has found is as it was, pieces apart. -/
theorem Purging.found (h : Purging uid c₀ c) {path : DocPath} {fields fields' : Fields}
    (hpath : ∀ pieceId, path ≠ .pieces pieceId) (hfields : c.doc path = some fields)
    (hfields' : c₀.doc path = some fields') : fields' = fields :=
  Option.some.inj (hfields'.symm.trans (h.shrinks.same hpath hfields))

/-- Once all that a query has found is deleted, it finds nothing, pieces apart. -/
theorem Shrinks.unselected (h : Shrinks uid c c') {query : Query} {writes : List Write}
    (hdeleted : ∀ path, .delete path ∈ writes → c'.doc path = none)
    (hfound : ∀ entry ∈ c.list query, .delete entry.1 ∈ writes) {path : DocPath} {fields : Fields}
    (hpath : ∀ pieceId, path ≠ .pieces pieceId) (hfields : c'.doc path = some fields) :
    query.selects path fields = false := by
  rw [Bool.eq_false_iff]
  intro hselects
  have hlisted : (path, fields) ∈ c.list query :=
    Cloud.mem_list.mpr ⟨h.same hpath hfields, hselects⟩
  have hgone := hdeleted path (hfound _ hlisted)
  rw [hgone] at hfields
  cases hfields

/-- The pieces of others that the user takes part in. -/
theorem secures_leavePieces (schedule : Schedule) (h : Purging uid c₀ c)
    {pieces : List (DocPath × Fields)}
    (hshared : ∀ piece ∈ pieces, ∃ q, piece.1 = .pieces q ∧ Shared uid c₀ q) :
    (leavePieces uid schedule pieces).Secures Operation.perform (Purges uid c₀) (fun _ c' =>
      Purging uid c₀ c' ∧ Shrinks uid c c' ∧ ∀ piece ∈ pieces, ∀ fields,
        c'.doc piece.1 = some fields → ¬TakesPart fields uid) c := by
  induction pieces generalizing c with
  | nil =>
    intro c' hrely
    obtain ⟨hc', hshrinks⟩ := hrely h
    exact ⟨hc', hshrinks, fun _ hp => absurd hp List.not_mem_nil⟩
  | cons piece rest ih =>
    obtain ⟨q, hq, hsharedq⟩ := hshared piece List.mem_cons_self
    rw [leavePieces, hq]
    refine .perform_bind fun t₁ hrely₁ => ⟨.refl t₁, fun notes hnotes => ?_⟩
    obtain rfl := Except.ok.inj hnotes
    obtain ⟨ht₁, hshrinks₁⟩ := hrely₁ h
    refine (secures_deletes_order schedule ht₁ ?_).bind .refl fun _ t₂ ht₂ => ?_
    · intro write hwrite
      obtain rfl | hwrite := List.mem_cons.mp hwrite
      · exact ⟨_, rfl, fun _ _ => .inr ⟨hsharedq, rfl⟩⟩
      · obtain ⟨⟨path, note⟩, hnote, rfl⟩ := List.mem_map.mp hwrite
        obtain ⟨hdoc, hselects⟩ := Cloud.mem_list.mp hnote
        refine ⟨path, rfl, fun fields hfields => ?_⟩
        cases path with
        | notes q' noteId =>
          obtain rfl := ht₁.found (by simp) hdoc hfields
          obtain ⟨rfl, hauthor⟩ : q' = q ∧ fields.read "authorId" = .string uid := by
            simpa [Query.selects, pieceIdOf] using hselects
          exact .inr ⟨hsharedq, hauthor⟩
        | _ => cases hselects
    obtain ⟨ht₂, hshrinks₂, hdeleted⟩ := ht₂
    have hslice : SliceGone uid q t₂ := by
      refine ⟨hdeleted _ List.mem_cons_self, fun noteId note hnote hauthor => ?_⟩
      have hunselected := hshrinks₂.unselected hdeleted (fun entry hentry =>
        List.mem_cons_of_mem _ (List.mem_map.mpr ⟨entry, hentry, rfl⟩)) (by simp) hnote
      simp [Query.selects, pieceIdOf, hauthor] at hunselected
    refine .perform_bind fun t₃ hrely₃ => ?_
    obtain ⟨ht₃, hshrinks₃⟩ := hrely₃ ht₂
    obtain ⟨hmove, hout⟩ := purges_drop hsharedq (hshrinks₃.sliceGone hslice)
    obtain ⟨ht₄, hshrinks₄⟩ := hmove ht₃
    refine ⟨hmove, fun _ hok => (ih ht₄ fun p hp => hshared p (List.mem_cons_of_mem _ hp)).mono ?_⟩
    rintro _ c' ⟨hc', hshrinks₅, hrest⟩
    refine ⟨hc', hshrinks₁.trans (hshrinks₂.trans (hshrinks₃.trans (hshrinks₄.trans hshrinks₅))), ?_⟩
    intro p hp fields hfields hpart
    obtain rfl | hp := List.mem_cons.mp hp
    · rw [hq] at hfields
      obtain ⟨before, hbefore, -, hbeforePart⟩ := hshrinks₅.piece hfields
      exact hout hok before hbefore (hbeforePart uid hpart)
    · exact hrest p hp fields hfields hpart

/-- A piece that the query finds is the user's own or another's. -/
theorem Purging.listed (h : Purging uid c₀ c) {piece : DocPath × Fields}
    (hlisted : piece ∈ c.list (.piecesOf uid)) : ∃ q, piece.1 = .pieces q ∧
      (piece.2.read "ownerId" = .string uid → Mine uid c₀ q) ∧
        (piece.2.read "ownerId" ≠ .string uid → Shared uid c₀ q) := by
  obtain ⟨path, fields⟩ := piece
  obtain ⟨hdoc, hselects⟩ := Cloud.mem_list.mp hlisted
  cases path with
  | pieces q =>
    obtain ⟨before, hbefore, howner, hpart⟩ := h.shrinks.piece hdoc
    have hin := hpart uid hselects
    refine ⟨q, rfl, fun hmine => ⟨before, hbefore, hin, howner.symm.trans hmine⟩, fun hout => ?_⟩
    exact ⟨before, hbefore, hin, fun hmine => hout (howner.trans hmine)⟩
  | _ => cases hselects

theorem secures_purgePieces (schedule : Schedule) (h : Purging uid c₀ c) :
    (purgePieces uid schedule (c.list (.piecesOf uid))).Secures Operation.perform (Purges uid c₀)
      (fun _ c' => Purging uid c₀ c' ∧ Shrinks uid c c' ∧ ∀ q fields,
        c'.doc (.pieces q) = some fields → ¬TakesPart fields uid) c := by
  refine (secures_deletes_order schedule h ?_).bind .refl fun _ t ht => ?_
  · intro write hwrite
    obtain ⟨piece, hpiece, rfl⟩ := List.mem_map.mp hwrite
    obtain ⟨hlisted, hmine⟩ := List.mem_filter.mp hpiece
    obtain ⟨q, hq, hown, -⟩ := h.listed hlisted
    exact ⟨_, rfl, fun _ _ => by rw [hq]; exact hown (of_decide_eq_true hmine)⟩
  obtain ⟨ht, hshrinks, hdeleted⟩ := ht
  refine (secures_leavePieces schedule ht ?_).mono ?_
  · intro piece hpiece
    obtain ⟨hlisted, hother⟩ := List.mem_filter.mp hpiece
    obtain ⟨q, hq, -, hshared⟩ := h.listed hlisted
    exact ⟨q, hq, hshared (of_decide_eq_true hother)⟩
  · intro _ c' ⟨hc', hshrinks', hleft⟩
    refine ⟨hc', hshrinks.trans hshrinks', fun q fields hfields hpart => ?_⟩
    obtain ⟨before, hbefore, -, hin⟩ := (hshrinks.trans hshrinks').piece hfields
    have hlisted : (DocPath.pieces q, before) ∈ c.list (.piecesOf uid) :=
      Cloud.mem_list.mpr ⟨hbefore, hin uid hpart⟩
    by_cases howner : before.read "ownerId" = .string uid
    · have hgone := hdeleted (.pieces q)
        (List.mem_map.mpr ⟨_, List.mem_filter.mpr ⟨hlisted, decide_eq_true howner⟩, rfl⟩)
      rw [hshrinks'.missing hgone] at hfields
      cases hfields
    · exact hleft _ (List.mem_filter.mpr ⟨hlisted, decide_eq_true howner⟩) fields hfields hpart

/-- What an attempt that succeeds leaves. -/
structure AccountGone (uid : String) (c : Cloud) : Prop where
  directory : ∀ emailKey entry, c.doc (.usersByEmail emailKey) = some entry →
    entry.read "uid" ≠ .string uid
  deviceTokens : c.doc (.deviceTokens uid) = none
  inbox : ∀ messageId, c.doc (.userInbox uid messageId) = none
  pieces : ∀ pieceId piece, c.doc (.pieces pieceId) = some piece → ¬TakesPart piece uid

theorem secures_deleteAccount (token : Token) (recent : Bool) (schedule : Schedule)
    (h : Purging token.uid c₀ c) :
    (deleteAccount (some token) recent schedule).Secures Operation.perform (Purges token.uid c₀)
      (fun _ c' => AccountGone token.uid c') c := by
  rw [deleteAccount, orFail_some, done_bind]
  split_ifs
  · trivial
  refine .perform_bind fun t₁ hrely₁ => ⟨.refl t₁, fun directory hdirectory => ?_⟩
  obtain rfl := Except.ok.inj hdirectory
  obtain ⟨ht₁, -⟩ := hrely₁ h
  refine .perform_bind fun t₂ hrely₂ => ⟨.refl t₂, fun deviceToken _ => ?_⟩
  obtain ⟨ht₂, hshrinks₂⟩ := hrely₂ ht₁
  refine (secures_deletes_order schedule ht₂ ?_).bind .refl fun _ t₃ ht₃ => ?_
  · intro write hwrite
    obtain hwrite | hwrite := List.mem_append.mp hwrite
    · obtain ⟨⟨path, entry⟩, hentry, rfl⟩ := List.mem_map.mp hwrite
      obtain ⟨hdoc, hselects⟩ := Cloud.mem_list.mp hentry
      refine ⟨path, rfl, fun fields hfields => ?_⟩
      cases path with
      | usersByEmail emailKey =>
        obtain rfl := ht₁.found (by simp) hdoc hfields
        simpa [Query.selects, Swept] using hselects
      | _ => cases hselects
    · obtain rfl := List.mem_singleton.mp hwrite
      exact ⟨_, rfl, fun _ _ => rfl⟩
  obtain ⟨ht₃, hshrinks₃, hdeleted⟩ := ht₃
  have hdirectory₃ : ∀ emailKey entry, t₃.doc (.usersByEmail emailKey) = some entry →
      entry.read "uid" ≠ .string token.uid := by
    intro emailKey entry hentry huid
    have hunselected := (hshrinks₂.trans hshrinks₃).unselected hdeleted (fun entry hentry =>
      List.mem_append_left _ (List.mem_map.mpr ⟨entry, hentry, rfl⟩)) (by simp) hentry
    simp [Query.selects, huid] at hunselected
  have hdeviceTokens₃ : t₃.doc (.deviceTokens token.uid) = none :=
    hdeleted _ (List.mem_append_right _ (List.mem_singleton_self _))
  refine .perform_bind fun t₄ hrely₄ => ⟨.refl t₄, fun counted _ => ?_⟩
  obtain ⟨ht₄, hshrinks₄⟩ := hrely₄ ht₃
  refine .perform_bind fun t₅ hrely₅ => ⟨.refl t₅, fun inbox hinbox => ?_⟩
  obtain rfl := Except.ok.inj hinbox
  obtain ⟨ht₅, hshrinks₅⟩ := hrely₅ ht₄
  refine (secures_deletes_order schedule ht₅ ?_).bind .refl fun _ t₆ ht₆ => ?_
  · intro write hwrite
    obtain ⟨⟨path, message⟩, hmessage, rfl⟩ := List.mem_map.mp hwrite
    obtain ⟨hdoc, hselects⟩ := Cloud.mem_list.mp hmessage
    refine ⟨path, rfl, fun fields hfields => ?_⟩
    cases path with
    | userInbox uid' messageId => simpa [Query.selects, Swept] using hselects
    | _ => cases hselects
  obtain ⟨ht₆, hshrinks₆, hdeleted₆⟩ := ht₆
  have hinbox₆ : ∀ messageId, t₆.doc (.userInbox token.uid messageId) = none := by
    intro messageId
    cases hmessage : t₆.doc (.userInbox token.uid messageId) with
    | none => rfl
    | some message =>
      have hunselected := hshrinks₆.unselected hdeleted₆ (fun message hmessage =>
        List.mem_map.mpr ⟨message, hmessage, rfl⟩) (by simp) hmessage
      simp [Query.selects] at hunselected
  refine .perform_bind fun t₇ hrely₇ => ⟨.refl t₇, fun myPieces hpieces => ?_⟩
  obtain rfl := Except.ok.inj hpieces
  obtain ⟨ht₇, hshrinks₇⟩ := hrely₇ ht₆
  refine (secures_purgePieces schedule ht₇).bind .refl fun _ t₈ ht₈ => ?_
  obtain ⟨ht₈, hshrinks₈, hpieces₈⟩ := ht₈
  intro c' hrely
  obtain ⟨-, hshrinks₉⟩ := hrely ht₈
  have hinbox : Shrinks token.uid t₆ c' := hshrinks₇.trans (hshrinks₈.trans hshrinks₉)
  have hdirectory : Shrinks token.uid t₃ c' :=
    hshrinks₄.trans (hshrinks₅.trans (hshrinks₆.trans hinbox))
  refine ⟨fun emailKey entry hentry => ?_, hdirectory.missing hdeviceTokens₃,
    fun messageId => hinbox.missing (hinbox₆ messageId), fun q piece hpiece hpart => ?_⟩
  · exact hdirectory₃ emailKey entry (hdirectory.same (by simp) hentry)
  · obtain ⟨before, hbefore, -, hin⟩ := hshrinks₉.piece hpiece
    exact hpieces₈ q before hbefore (hin token.uid hpart)

/-- The trigger for a piece of the user's that has been deleted. -/
theorem secures_cascade (schedule : Schedule) (h : Purging uid c₀ c)
    (hmine : Mine uid c₀ pieceId) :
    (onPieceDeleted pieceId schedule).Secures Operation.perform (Purges uid c₀)
      (fun _ c' => ∀ path, path.isUnder pieceId = true → c'.doc path = none) c := by
  refine .perform_bind fun t hrely => ⟨.refl t, fun descendants hdescendants => ?_⟩
  obtain rfl := Except.ok.inj hdescendants
  obtain ⟨ht, -⟩ := hrely h
  refine (secures_deletes_order schedule ht ?_).mono fun _ c' hc' path hunder => ?_
  · intro write hwrite
    obtain hwrite | hwrite := List.mem_append.mp hwrite
    · obtain ⟨⟨path, fields⟩, hlisted, rfl⟩ := List.mem_map.mp hwrite
      obtain ⟨hdoc, hselects⟩ := Cloud.mem_list.mp hlisted
      refine ⟨path, rfl, fun _ _ => ?_⟩
      cases path with
      | layers q uid' =>
        obtain rfl : q = pieceId := by simpa [Query.selects] using hselects
        exact .inl hmine
      | notes q noteId =>
        obtain rfl : q = pieceId := by simpa [Query.selects] using hselects
        exact .inl hmine
      | reads q uid' =>
        obtain rfl : q = pieceId := by simpa [Query.selects] using hselects
        exact hmine
      | _ => cases hselects
    · obtain rfl := List.mem_singleton.mp hwrite
      exact ⟨_, rfl, fun _ _ => hmine⟩
  · obtain ⟨-, hshrinks, hdeleted⟩ := hc'
    cases hfields : c'.doc path with
    | none => rfl
    | some fields =>
      have hunselected := hshrinks.unselected hdeleted (fun entry hentry =>
        List.mem_append_left _ (List.mem_map.mpr ⟨entry, hentry, rfl⟩)) (fun q hq => by
          rw [hq] at hunder
          cases hunder) hfields
      cases path <;> simp_all [DocPath.isUnder, Query.selects]

/-! ## What a purge leaves -/

/-- What is there at the end of a purge that has succeeded, and whose triggers have run. -/
theorem purged_of_covers (h : Purging uid c₀ c) (hcovers : PurgeCovers uid c₀)
    (hgone : AccountGone uid c)
    (hcascades : ∀ q, Mine uid c₀ q → ∀ path, path.isUnder q = true → c.doc path = none) :
    Purged uid c := by
  have hslices : ∀ q, SliceGone uid q c := by
    intro q
    by_cases hmine : Mine uid c₀ q
    · refine ⟨hcascades q hmine _ (by simp [DocPath.isUnder]), fun noteId note hnote => ?_⟩
      rw [hcascades q hmine _ (by simp [DocPath.isUnder])] at hnote
      cases hnote
    by_cases hshared : Shared uid c₀ q
    · cases hpiece : c.doc (.pieces q) with
      | none =>
        obtain ⟨piece, hbefore, -, -⟩ := hshared
        exact absurd (h.swept _ piece hbefore hpiece) hmine
      | some piece => exact h.dropped q piece hshared hpiece (hgone.pieces q piece hpiece)
    · exact h.shrinks.sliceGone (hcovers.slices q hmine hshared)
  refine ⟨hgone.directory, hgone.deviceTokens, hgone.inbox, h.shrinks.missing hcovers.rateLimits,
    fun q piece hpiece => ?_, hslices, fun q => ?_⟩
  · have hout := hgone.pieces q piece hpiece
    obtain ⟨before, hbefore, rfl | ⟨-, hwithout⟩⟩ := h.shrinks _ piece hpiece
    · obtain ⟨howner, hnames⟩ := hcovers.listed q piece hbefore hout
      exact ⟨howner, hout, hnames⟩
    · refine ⟨fun howner => ?_, hout, hwithout.not_names⟩
      by_cases hpart : TakesPart before uid
      · have hshared : ¬Shared uid c₀ q := by
          rintro ⟨piece', hpiece', -, hother⟩
          obtain rfl := Option.some.inj (hbefore.symm.trans hpiece')
          exact hother (hwithout.ownerId.symm.trans howner)
        obtain rfl := Option.some.inj (hbefore.symm.trans (h.untouched q piece hshared hpiece))
        exact hout hpart
      · exact (hcovers.listed q before hbefore hpart).1 (hwithout.ownerId.symm.trans howner)
  · by_cases hmine : Mine uid c₀ q
    · exact hcascades q hmine _ (by simp [DocPath.isUnder])
    · exact h.shrinks.missing (hcovers.reads q hmine)

/-- Whatever is left behind is there at the end as well. -/
theorem covers_of_purged (h : Purging uid c₀ c) (hpurged : Purged uid c) : PurgeCovers uid c₀ := by
  have hleft : ∀ path fields, (∀ q, path ≠ .pieces q) → c₀.doc path = some fields →
      ¬Swept uid c₀ fields path → c.doc path = some fields := by
    intro path fields hpath hfields hswept
    cases hafter : c.doc path with
    | none => exact absurd (h.swept path fields hfields hafter) hswept
    | some after =>
      have hbefore := h.shrinks.same hpath hafter
      exact hbefore.symm.trans hfields
  refine ⟨?_, fun q piece hpiece hout => ?_, fun q hmine => ?_, fun q hmine hshared => ⟨?_, ?_⟩⟩
  · by_contra hne
    obtain ⟨fields, hfields⟩ := Option.ne_none_iff_exists'.mp hne
    have hafter := hleft _ fields (by simp) hfields id
    rw [hpurged.rateLimits] at hafter
    cases hafter
  · have hshared : ¬Shared uid c₀ q := by
      rintro ⟨piece', hpiece', hpart, -⟩
      obtain rfl := Option.some.inj (hpiece.symm.trans hpiece')
      exact hout hpart
    cases hafter : c.doc (.pieces q) with
    | none =>
      obtain ⟨piece', hpiece', hpart, -⟩ := h.swept _ piece hpiece hafter
      obtain rfl := Option.some.inj (hpiece.symm.trans hpiece')
      exact absurd hpart hout
    | some after =>
      obtain rfl := Option.some.inj (hpiece.symm.trans (h.untouched q after hshared hafter))
      obtain ⟨howner, -, hnames⟩ := hpurged.pieces q piece hafter
      exact ⟨howner, hnames⟩
  · by_contra hne
    obtain ⟨fields, hfields⟩ := Option.ne_none_iff_exists'.mp hne
    have hafter := hleft _ fields (by simp) hfields hmine
    rw [hpurged.reads q] at hafter
    cases hafter
  · by_contra hne
    obtain ⟨fields, hfields⟩ := Option.ne_none_iff_exists'.mp hne
    have hafter := hleft _ fields (by simp) hfields (by simp [Swept, hmine, hshared])
    rw [(hpurged.slices q).1] at hafter
    cases hafter
  · intro noteId note hnote
    exact (hpurged.slices q).2 noteId note
      (hleft _ note (by simp) hnote (by simp [Swept, hmine, hshared]))

/-- Only what belongs to the user is deleted. -/
theorem Purging.contained (h : Purging uid c₀ c) : Contained uid c₀ c := by
  refine ⟨h.shrinks, fun path fields hfields hother hgone => hother ?_⟩
  have hmine : ∀ q, Mine uid c₀ q → OwnsPiece uid c₀ q :=
    fun q ⟨piece, hpiece, _, howner⟩ => ⟨piece, hpiece, howner⟩
  have hswept := h.swept path fields hfields hgone
  cases path with
  | pieces q =>
    obtain ⟨piece, hpiece, howner⟩ := hmine q hswept
    obtain rfl := Option.some.inj (hfields.symm.trans hpiece)
    exact howner
  | layers q uid' => exact hswept.symm.imp And.right (hmine q)
  | notes q noteId => exact hswept.symm.imp And.right (hmine q)
  | reads q uid' => exact .inr (hmine q hswept)
  | rateLimits uid' => exact hswept.elim
  | _ => exact hswept

/-! ## The purge -/

namespace Backend

/-- The attempts of the user, and the triggers that they set off: those that are told of a piece that
has been deleted since `c₀`, and those that are told of a layer or a note that is gone. -/
def ResultsFrom (uid : String) (c₀ c : Cloud) : Job → Prop
  | .request (.deleteAccount (some token) _ _) => token.uid = uid
  | .pieceDeleted pieceId _ => c₀.doc (.pieces pieceId) ≠ none ∧ c.doc (.pieces pieceId) = none
  | .activity activity _ => activity.editor? = none
  | _ => False

/-- A step of the purge: nobody else does anything. -/
def PurgeStep (uid : String) (c₀ : Cloud) (s : Backend) : BackendEvent → Prop
  | .environment _ => False
  | .start job => ResultsFrom uid c₀ s.state job
  | _ => True

/-- An attempt of the user's has succeeded. -/
def Succeeded (s : Backend) : Prop :=
  ∃ running ∈ s.running, (∃ auth recent schedule,
    running.job = .request (.deleteAccount auth recent schedule)) ∧ running.program = .done ()

/-- The triggers for the pieces that have been deleted since `c₀` are done. -/
def Cascaded (c₀ : Cloud) (s : Backend) : Prop :=
  ∀ pieceId, c₀.doc (.pieces pieceId) ≠ none → s.state.doc (.pieces pieceId) = none →
    ∃ running ∈ s.running, isCascade pieceId running.job = true ∧ running.program = .done ()

/-- What a job of the purge leaves when it is done. -/
def Leaves (uid : String) (_ : Nat) (job : Job) (_ : Unit) (c : Cloud) : Prop :=
  match job with
  | .request (.deleteAccount _ _ _) => AccountGone uid c
  | .pieceDeleted pieceId _ => ∀ path, path.isUnder pieceId = true → c.doc path = none
  | _ => True

variable {emailKey : String → String} {s t : Backend}

theorem secures_purgeJob {job : Job} {i : Nat} (h : Purging uid c₀ c)
    (hjob : ResultsFrom uid c₀ c job) :
    (job.program emailKey).Secures Operation.perform (Purges uid c₀) (Leaves uid i job) c := by
  cases job with
  | request r =>
    cases r with
    | deleteAccount auth recent schedule =>
      cases auth with
      | some token =>
        obtain rfl : token.uid = uid := hjob
        exact (secures_deleteAccount token recent schedule h).map
      | none => cases hjob
    | _ => cases hjob
  | pieceDeleted q schedule =>
    obtain ⟨hbefore, hgone⟩ := hjob
    obtain ⟨piece, hpiece⟩ := Option.ne_none_iff_exists'.mp hbefore
    exact secures_cascade schedule h (h.swept _ piece hpiece hgone)
  | activity activity now =>
    have hdone : Job.program emailKey (.activity activity now) = done () := by
      rw [Job.program, Activity.trigger_eq, show activity.editor? = none from hjob]
    rw [hdone]
    exact fun _ _ => trivial
  | _ => cases hjob

/-- Every step of the purge purges. -/
theorem purging_step {event : BackendEvent} (h : Purging uid c₀ s.state)
    (hjobs : s.Secured Operation.perform (Purges uid c₀) (Leaves uid))
    (hpurge : PurgeStep uid c₀ s event) (hstep : step emailKey s event = some t) :
    Purging uid c₀ t.state ∧ t.Secured Operation.perform (Purges uid c₀) (Leaves uid) := by
  obtain ⟨hmove, hjobs'⟩ := Jobs.secured_step .refl (fun _ _ _ => .trans) hjobs
    (fun batch c hevent _ => by rw [hevent] at hpurge; exact hpurge.elim)
    (fun job hevent => secures_purgeJob h (by rw [hevent] at hpurge; exact hpurge)) hstep
  exact ⟨(hmove h).1, hjobs'⟩

/-- A purge that has succeeded, and whose triggers have run, leaves nothing of the user's and
changes nothing else exactly where it covers everything of the user's. -/
theorem purged_iff (emailKey : String → String) (uid : String) {c₀ : Cloud}
    {es : List BackendEvent} (hpurge : EachStep (step emailKey) (PurgeStep uid c₀) ⟨c₀, []⟩ es)
    (hs : run (step emailKey) ⟨c₀, []⟩ es = some s) (hsucceeded : Succeeded s)
    (hcascaded : Cascaded c₀ s) :
    Purged uid s.state ∧ Contained uid c₀ s.state ↔ PurgeCovers uid c₀ := by
  have hstart : (⟨c₀, []⟩ : Backend).Secured Operation.perform (Purges uid c₀) (Leaves uid) := by
    intro i running hi
    cases hi
  obtain ⟨hpurging, hjobs⟩ := run_invariant
    (I := fun s => Purging uid c₀ s.state ∧
      s.Secured Operation.perform (Purges uid c₀) (Leaves uid))
    (fun s e t hs hpurge hstep => purging_step hs.1 hs.2 hpurge hstep)
    ⟨Purging.start c₀, hstart⟩ hpurge hs
  have hdone : ∀ running ∈ s.running, running.program = .done () →
      ∃ i, Leaves uid i running.job () s.state := by
    intro running hrunning hdone
    obtain ⟨i, hi⟩ := List.mem_iff_getElem?.mp hrunning
    have hsecures := hjobs i running hi
    rw [hdone] at hsecures
    exact ⟨i, hsecures s.state (.refl _)⟩
  constructor
  · intro ⟨hpurged, _⟩
    exact covers_of_purged hpurging hpurged
  · intro hcovers
    have hgone : AccountGone uid s.state := by
      obtain ⟨running, hrunning, ⟨auth, recent, schedule, hjob⟩, hended⟩ := hsucceeded
      obtain ⟨i, hleaves⟩ := hdone running hrunning hended
      rwa [hjob] at hleaves
    refine ⟨purged_of_covers hpurging hcovers hgone fun q hmine => ?_, hpurging.contained⟩
    obtain ⟨piece, hpiece, hpart, howner⟩ := hmine
    have hdeleted : s.state.doc (.pieces q) = none := by
      cases hafter : s.state.doc (.pieces q) with
      | none => rfl
      | some after =>
        have hshared : ¬Shared uid c₀ q := by
          rintro ⟨piece', hpiece', -, hother⟩
          obtain rfl := Option.some.inj (hpiece.symm.trans hpiece')
          exact hother howner
        obtain rfl := Option.some.inj (hpiece.symm.trans (hpurging.untouched q after hshared hafter))
        exact absurd hpart (hgone.pieces q piece hafter)
    obtain ⟨running, hrunning, hcascade, hended⟩ :=
      hcascaded q (by rw [hpiece]; exact nofun) hdeleted
    obtain ⟨i, hleaves⟩ := hdone running hrunning hended
    cases hjob : running.job with
    | pieceDeleted q' schedule =>
      rw [hjob] at hcascade hleaves
      obtain rfl : q' = q := by simpa [isCascade] using hcascade
      exact hleaves
    | _ =>
      rw [hjob] at hcascade
      cases hcascade

/-! ### A watermark left behind -/

/-- The states that some run of the backend reaches. -/
def Reachable (emailKey : String → String) (s : Backend) : Prop :=
  ∃ es, run (step emailKey) ⟨.empty, []⟩ es = some s

def ann : Token := ⟨"ann", none, some "ann@duet"⟩

/-- `bob` shares a piece with `ann`, who opens it. -/
def annOpens : List BackendEvent :=
  [.environment ⟨"ann", [.set (.usersByEmail "ann@duet")
      (Assoc.ofList [("uid", .string "ann"), ("discoverable", .bool true)])]⟩,
    .environment ⟨"bob", [.set (.pieces "piece") (Assoc.ofList [("ownerId", .string "bob"),
      ("participantIds", .array [.string "bob"]), ("collaborators", .array [])])]⟩,
    .start (.request (.sendInvite (some ⟨"bob", none, none⟩)
      [("pieceId", .string "piece"), ("inviteeEmail", .string "ann@duet")] "message" 0)),
    .advance 0, .advance 0, .advance 0,
    .start (.request (.acceptInvite (some ann) [("messageId", .string "message")])),
    .advance 1, .advance 1, .advance 1,
    .environment ⟨"ann", [.merge (.reads "piece" "ann") (watermark "ann" (.sinceEpoch 1))]⟩]

/-- `ann` deletes her account. -/
def annDeletesAccount : List BackendEvent :=
  .start (.request (.deleteAccount (some ann) true .inOrder)) :: List.replicate 11 (.advance 0)

/-- A document that is not a piece, or a piece that is still there. -/
def keepsPiece (s : Backend) : DocPath → Bool
  | .pieces pieceId => (s.state.doc (.pieces pieceId)).isSome
  | _ => true

/-- A `deleteAccount` that has ended well. -/
def hasDeleted : RunningJob Job Operation Operation.Response CloudFailure Unit → Bool
  | ⟨.request (.deleteAccount ..), .done _⟩ => true
  | _ => false

/-- The attempt succeeds, and no piece is deleted. -/
theorem annDeletesAccount_succeeds : ∃ s₀ s : Backend, Reachable id s₀ ∧
    EachStep (step id) (PurgeStep "ann" s₀.state) ⟨s₀.state, []⟩ annDeletesAccount ∧
      run (step id) ⟨s₀.state, []⟩ annDeletesAccount = some s ∧ Succeeded s ∧
        Cascaded s₀.state s ∧ s.state.doc (.reads "piece" "ann") ≠ none := by
  have hruns : ((run (step id) ⟨.empty, []⟩ annOpens).bind fun s₀ =>
      (run (step id) ⟨s₀.state, []⟩ annDeletesAccount).map fun s =>
        (s₀.state.docs.all fun entry => s.keepsPiece entry.1, s.running.any hasDeleted,
          (s.state.doc (.reads "piece" "ann")).isSome)) = some (true, true, true) := by
    decide +kernel
  obtain ⟨s₀, hs₀, hruns⟩ := Option.bind_eq_some_iff.mp hruns
  obtain ⟨s, hs, hfacts⟩ := Option.map_eq_some_iff.mp hruns
  simp only [Prod.mk.injEq, List.all_eq_true, List.any_eq_true] at hfacts
  obtain ⟨hkept, ⟨running, hrunning, hended⟩, hread⟩ := hfacts
  refine ⟨s₀, s, ⟨_, hs₀⟩, ⟨rfl, fun t _ => .of_forall fun e he u => ?_⟩, hs, ?_, ?_, ?_⟩
  · obtain rfl := List.eq_of_mem_replicate he
    trivial
  · refine ⟨running, hrunning, ?_⟩
    unfold hasDeleted at hended
    split at hended
    · exact ⟨⟨_, _, _, rfl⟩, rfl⟩
    · cases hended
  · intro pieceId hbefore hgone
    obtain ⟨piece, hpiece⟩ := Option.ne_none_iff_exists'.mp hbefore
    have hleft := hkept (.pieces pieceId, piece) ((Assoc.mem_iff_get s₀.state.nodup).mpr hpiece)
    simp [keepsPiece, hgone] at hleft
  · exact Option.isSome_iff_ne_none.mp hread

theorem purged_iff_annDeletesAccount : ∃ s₀ s : Backend,
    run (step id) ⟨s₀.state, []⟩ annDeletesAccount = some s ∧
      (Purged "ann" s.state ∧ Contained "ann" s₀.state s.state ↔ PurgeCovers "ann" s₀.state) := by
  obtain ⟨s₀, s, -, hpurge, hs, hsucceeded, hcascaded, -⟩ := annDeletesAccount_succeeds
  exact ⟨s₀, s, hs, purged_iff id "ann" hpurge hs hsucceeded hcascaded⟩

/-- The watermark of a collaborator survives the account. -/
theorem not_purged : ∃ s₀ s : Backend, Reachable id s₀ ∧
    EachStep (step id) (PurgeStep "ann" s₀.state) ⟨s₀.state, []⟩ annDeletesAccount ∧
      run (step id) ⟨s₀.state, []⟩ annDeletesAccount = some s ∧ Succeeded s ∧
        Cascaded s₀.state s ∧ ¬(Purged "ann" s.state ∧ Contained "ann" s₀.state s.state) := by
  obtain ⟨s₀, s, hreachable, hpurge, hs, hsucceeded, hcascaded, hread⟩ := annDeletesAccount_succeeds
  exact ⟨s₀, s, hreachable, hpurge, hs, hsucceeded, hcascaded,
    fun hpurged => hread (hpurged.1.reads "piece")⟩

end Backend

end Duet
