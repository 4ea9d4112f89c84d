import Duet.Cloud.LocalPieceMigrator
import Duet.Lib.Jobs

/-!
# What a mutation leaves of a piece document

The calls of `FirestorePieceRepository` that change a piece, interleaved with uploads of its base
PDF. `_mutate` reads a document as a `Piece` and writes the `Piece` whole, so that a field which a
`Piece` does not have is gone afterwards: `basePdfUploaded`, with which the store stamps a piece
whose base PDF is uploaded, is one of them.

## Main definitions

* `DocumentCall` — a mutation of a piece, or an upload.
* `Mutations`, `Mutations.step` — the clients on which calls run, and one event.
* `Mutations.KeepsForeign` — the documents differ from what they would be without the mutations
  only in what a mutation is for.
* `Mutations.Spares` — a step writes no document that has a field of its own.

## Main results

* `Mutations.keepsForeign_iff` — foreign fields are kept exactly in the runs whose steps spare them.
-/

namespace Duet

open Lib Program Firestore

/-! ## The calls -/

/-- A mutation of a piece by a user, or an upload of its base PDF. -/
inductive DocumentCall where
  | renamePiece (pieceId title : String)
  | addCollaborator (pieceId userId : String) (name email : Option String)
  | leavePiece (user pieceId : String)
  | removeCollaborator (user pieceId userId : String)
  | pairCollaborator (pieceId collaboratorId : String)
    (collaboratorName collaboratorEmail ownerName : Option String)
  | uploadBasePdf (pieceId localPath checksum : String)
  deriving DecidableEq, Repr

namespace DocumentCall

def program : DocumentCall → ClientProgram Unit
  | renamePiece pieceId title => Firestore.renamePiece pieceId title
  | addCollaborator pieceId userId name email =>
    Firestore.addCollaborator pieceId userId name email
  | leavePiece user pieceId => Firestore.leavePiece user pieceId
  | removeCollaborator user pieceId userId => Firestore.removeCollaborator user pieceId userId
  | pairCollaborator pieceId collaboratorId collaboratorName collaboratorEmail ownerName =>
    Firestore.pairCollaborator pieceId collaboratorId collaboratorName collaboratorEmail ownerName
      >>= fun _ => done ()
  | uploadBasePdf pieceId localPath checksum =>
    Firestore.uploadBasePdf pieceId localPath checksum

def pieceId : DocumentCall → String
  | renamePiece pieceId _ | addCollaborator pieceId _ _ _ | leavePiece _ pieceId
  | removeCollaborator _ pieceId _ | pairCollaborator pieceId _ _ _ _
  | uploadBasePdf pieceId _ _ => pieceId

/-- What the call makes of the piece, as it hands it to `_mutate`. -/
def change : DocumentCall → Piece → Except CloudFailure (Option Piece)
  | renamePiece _ title, piece => .ok (some { piece with title := title })
  | addCollaborator _ userId name email, piece =>
    let entry := resolved piece userId name email
    if piece.collaborators.find? (fun c => c.uid == userId) = some entry then .ok none
    else .ok (some { piece with collaborators := withCollaborator piece entry })
  | leavePiece user _, piece =>
    if user = piece.ownerId then
      .error (.stateError "The owner of this piece cannot leave it; delete it instead.")
    else if !piece.isCollaborator user then .ok none
    else .ok (some (withoutCollaborator piece user))
  | removeCollaborator user pieceId userId, piece =>
    if user ≠ piece.ownerId then
      .error (.ownershipViolation pieceId (some "only the owner may remove a collaborator"))
    else if !piece.isCollaborator userId then .ok none
    else .ok (some (withoutCollaborator piece userId))
  | pairCollaborator _ collaboratorId collaboratorName collaboratorEmail ownerName, piece =>
    let withOwner : Piece := { piece with ownerName := piece.ownerName <|> ownerName }
    let entry := resolved withOwner collaboratorId collaboratorName collaboratorEmail
    .ok (some { withOwner with collaborators := withCollaborator withOwner entry })
  | uploadBasePdf _ _ _, _ => .ok none

/-- The name that the call gives to an owner who has none. -/
def ownerName : DocumentCall → Option String
  | pairCollaborator _ _ _ _ ownerName => ownerName
  | _ => none

/-- The call writes the document: it is that of a piece, and the call changes the piece. -/
def Writes (call : DocumentCall) (data : Fields) : Prop :=
  ∃ piece changed, pieceFromFirestore call.pieceId data "" = some piece ∧
    call.change piece = .ok (some changed)

/-- A change leaves what a call is not for, and fills in the name of the owner at most. -/
theorem change_frame {call : DocumentCall} {piece changed : Piece}
    (h : call.change piece = .ok (some changed)) :
    changed.ownerId = piece.ownerId ∧ changed.basePdfChecksum = piece.basePdfChecksum ∧
      changed.createdAt = piece.createdAt ∧
        changed.ownerName = (piece.ownerName <|> call.ownerName) := by
  cases call with
  | renamePiece pieceId title =>
    obtain rfl := Option.some.inj (Except.ok.inj h)
    simp [ownerName]
  | addCollaborator pieceId userId name email =>
    simp only [change] at h
    split_ifs at h
    · cases Except.ok.inj h
    obtain rfl := Option.some.inj (Except.ok.inj h)
    simp [ownerName]
  | leavePiece user pieceId =>
    simp only [change] at h
    split_ifs at h
    · cases Except.ok.inj h
    obtain rfl := Option.some.inj (Except.ok.inj h)
    simp [ownerName, withoutCollaborator]
  | removeCollaborator user pieceId userId =>
    simp only [change] at h
    split_ifs at h
    · cases Except.ok.inj h
    obtain rfl := Option.some.inj (Except.ok.inj h)
    simp [ownerName, withoutCollaborator]
  | pairCollaborator pieceId collaboratorId collaboratorName collaboratorEmail name =>
    obtain rfl := Option.some.inj (Except.ok.inj h)
    exact ⟨rfl, rfl, rfl, rfl⟩
  | uploadBasePdf pieceId localPath checksum => cases Except.ok.inj h

/-! ## The operations of a call -/

/-- The write with which the store records an upload. -/
def stamp (pieceId : String) : Write :=
  .merge (.pieces pieceId) (Assoc.ofList [("basePdfUploaded", .bool true)])

/-- A call reads, runs the transaction of `_mutate`, or stamps its piece. -/
def Issued (call : DocumentCall) : ClientOperation → Prop
  | .firestore (.transaction body) => ∃ now, body = mutation call.pieceId now call.change
  | .firestore (.commit writes) => writes = [stamp call.pieceId]
  | _ => True

abbrev IssuesCall (call : DocumentCall) {α : Type} (p : ClientProgram α) : Prop :=
  p.Issues (fun _ _ => True) call.Issued

theorem issues_onFirestore {call : DocumentCall} {α : Type} {p : AdminProgram α}
    (h : p.Issues (fun _ _ => True) fun op => call.Issued (.firestore op)) :
    call.IssuesCall (onFirestore p) := by
  refine Issues.lift ?_ (fun _ _ _ => trivial) h
  intro op hop
  exact hop

theorem issues_guarding {call : DocumentCall} {resourceId : String} {α : Type} {p : ClientProgram α}
    (h : call.IssuesCall p) : call.IssuesCall (guarding resourceId p) := by
  refine h.attempt.bind fun outcome => ?_
  rcases outcome with e | a
  · cases e <;> trivial
  · trivial

theorem issues_mutate (call : DocumentCall) : call.IssuesCall (mutate call.pieceId call.change) :=
  .ask_bind trivial fun now _ => issues_onFirestore ⟨⟨now, rfl⟩, fun _ _ => trivial⟩

theorem issues_readPiece (call : DocumentCall) (data : Option Fields) :
    call.IssuesCall (readPiece call.pieceId data) := by
  have hpath : call.IssuesCall (basePathFor call.pieceId) :=
    .ask_bind trivial fun _ _ => trivial
  refine .bind hpath fun basePdfPath => ?_
  split <;> trivial

theorem issues_uploadBasePdf (pieceId localPath checksum : String) :
    (uploadBasePdf pieceId localPath checksum).IssuesCall
      (Firestore.uploadBasePdf pieceId localPath checksum) := by
  have hstamp : (uploadBasePdf pieceId localPath checksum).IssuesCall (markUploaded pieceId) :=
    issues_onFirestore ⟨rfl, fun _ _ => trivial⟩
  refine .bind (.ask_bind trivial fun _ _ => trivial) fun stored => ?_
  split_ifs
  · exact hstamp
  · exact .ask_bind trivial fun _ _ => hstamp

theorem issues_program (call : DocumentCall) : call.IssuesCall call.program := by
  cases call with
  | pairCollaborator pieceId collaboratorId collaboratorName collaboratorEmail ownerName =>
    have hcall := issues_mutate
      (pairCollaborator pieceId collaboratorId collaboratorName collaboratorEmail ownerName)
    refine .bind (issues_guarding (.bind hcall fun _ => ?_)) fun _ => trivial
    exact .bind (issues_onFirestore ⟨trivial, fun _ _ => trivial⟩) fun refreshed =>
      issues_readPiece
        (pairCollaborator pieceId collaboratorId collaboratorName collaboratorEmail ownerName) _
  | uploadBasePdf pieceId localPath checksum => exact issues_uploadBasePdf _ _ _
  | renamePiece pieceId title => exact issues_guarding (issues_mutate (renamePiece pieceId title))
  | addCollaborator pieceId userId name email =>
    exact issues_guarding (issues_mutate (addCollaborator pieceId userId name email))
  | leavePiece user pieceId => exact issues_guarding (issues_mutate (leavePiece user pieceId))
  | removeCollaborator user pieceId userId =>
    exact issues_guarding (issues_mutate (removeCollaborator user pieceId userId))

end DocumentCall

/-! ## Runs -/

/-- What the next operation meets: the device that it is issued on, the clock, and its fate. -/
structure Surroundings where
  client : Client
  given : Given
  fate : Fate CloudFailure

/-- The client, what its next operation meets, and the documents as they would be without the
mutations. -/
structure Mutations where
  client : Client
  given : Given
  fate : Fate CloudFailure
  unmutated : Cloud

namespace Mutations

/-- What an operation does to the documents without the mutations: stamps are not transactions. -/
def unmutatedAfter (s : Mutations) : ClientOperation → Cloud
  | .firestore (.commit writes) =>
    if s.fate.takesEffect then ((Operation.commit writes).perform s.unmutated).2 else s.unmutated
  | _ => s.unmutated

def interpret (platform : Platform) :
    Interpreter ClientOperation (fun o => Except CloudFailure o.Response) CloudFailure Mutations :=
  fun o s =>
    let result := s.fate.apply s.client (o.perform platform s.given s.client)
    (.ok result.1, { s with client := result.2, unmutated := s.unmutatedAfter o })

/-- Another device is up, which has the documents in common with all others. -/
def meet (s : Mutations) (e : Surroundings) : Option Mutations :=
  some ⟨{ e.client with cloud := s.client.cloud }, e.given, e.fate, s.unmutated⟩

/-- The calls that have been started. -/
abbrev Running := Jobs DocumentCall ClientOperation (fun o => Except CloudFailure o.Response)
  CloudFailure Unit Mutations

abbrev Event := JobEvent Surroundings DocumentCall CloudFailure

def step (platform : Platform) : Running → Event → Option Running :=
  Jobs.step DocumentCall.program (interpret platform) meet

/-! ## Foreign fields -/

/-- The fields that a mutation is for. -/
def mutated : List String := ["title", "collaborators", "participantIds", "updatedAt"]

/-- The fields of a piece. -/
def modelled : List String := ["title", "ownerId", "ownerName", "participantIds", "collaborators",
  "basePdfChecksum", "createdAt", "updatedAt"]

/-- An owner without a name has been given one. -/
def Backfilled (old new : Fields) : Prop :=
  old.read "ownerName" = .null ∧ ∃ name, new.get "ownerName" = some (.string name)

/-- The document differs only in what a mutation is for. -/
def SameForeign (old new : Fields) : Prop :=
  ∀ key ∉ mutated, new.get key = old.get key ∨ key = "ownerName" ∧ Backfilled old new

/-- Every piece differs only in what a mutation is for. -/
def SamePieces (old new : Cloud) : Prop :=
  ∀ pieceId, Option.Rel SameForeign (old.doc (.pieces pieceId)) (new.doc (.pieces pieceId))

/-- Every piece differs from what it would be without the mutations only in what they are for. -/
def KeepsForeign (s : Mutations) : Prop := SamePieces s.unmutated s.client.cloud

/-- A document has no field but those of a piece, and a field for the name of the owner unless the
call fills it in. -/
def Modelled (call : DocumentCall) (data : Fields) : Prop :=
  (∀ key, data.get key ≠ none → key ∈ modelled) ∧
    (data.get "ownerName" ≠ none ∨ call.ownerName ≠ none)

/-- A mutation that takes effect writes only what is modelled. -/
def Spares (s : Running) : Event → Prop
  | .advance i => ∀ running, s.running[i]? = some running →
      (∃ body, running.program.next? = some (.firestore (.transaction body))) →
        s.state.fate.takesEffect = true →
          ∀ data, s.state.client.cloud.doc (.pieces running.job.pieceId) = some data →
            running.job.Writes data → Modelled running.job data
  | _ => True

/-! ### One mutation -/

/-- The document of a piece has the fields of a piece. -/
theorem get_pieceToFirestore (piece : Piece) {key : String} (h : key ∉ modelled) :
    (pieceToFirestore piece).get key = none := by
  simp only [modelled, List.mem_cons, List.not_mem_nil, or_false, not_or] at h
  simp [pieceToFirestore, Assoc.ofList, h]

/-- What a piece is read from. -/
theorem fields_of_pieceFromFirestore {id path : String} {data : Fields} {piece : Piece}
    (h : pieceFromFirestore id data path = some piece) :
    data.get "ownerId" = some (.string piece.ownerId) ∧
      data.get "basePdfChecksum" = some (.string piece.basePdfChecksum) ∧
        data.get "createdAt" = some (toTimestamp piece.createdAt) ∧
          data.read "ownerName" = .ofOption .string piece.ownerName := by
  simp only [pieceFromFirestore, Option.bind_eq_bind, Option.bind_eq_some_iff, Option.pure_def,
    Option.some.injEq] at h
  obtain ⟨title, -, checksum, hchecksum, ownerId, howner, ownerName, hname, _, -, createdAt, hcreated,
    _, -, rfl⟩ := h
  refine ⟨Fields.read_eq_string.mp (Value.asString_eq_some.mp howner),
    Fields.read_eq_string.mp (Value.asString_eq_some.mp hchecksum), ?_,
    Value.orNull_asString_eq_some.mp hname⟩
  exact Fields.get_of_read (eq_toTimestamp_of_asDate hcreated) (by simp [toTimestamp])

section

variable {call : DocumentCall} {data reference : Fields} {piece changed : Piece}

/-- A field that is written back as it was read. -/
theorem get_written (hread : pieceFromFirestore call.pieceId data "" = some piece)
    (hchange : call.change piece = .ok (some changed)) (now : DateTime) {key : String}
    (hkey : key ∈ modelled) (hmutated : key ∉ mutated) (hname : key ≠ "ownerName") :
    (pieceToFirestore { changed with updatedAt := now }).get key = data.get key := by
  obtain ⟨howner, hchecksum, hcreated, -⟩ := fields_of_pieceFromFirestore hread
  obtain ⟨howner', hchecksum', hcreated', -⟩ := DocumentCall.change_frame hchange
  obtain rfl | rfl | rfl : key = "ownerId" ∨ key = "basePdfChecksum" ∨ key = "createdAt" := by
    simp only [modelled, mutated, List.mem_cons, List.not_mem_nil, or_false] at hkey hmutated
    grind
  · rw [howner, ← howner']
    simp [pieceToFirestore, Assoc.ofList]
  · rw [hchecksum, ← hchecksum']
    simp [pieceToFirestore, Assoc.ofList]
  · rw [hcreated, ← hcreated']
    simp [pieceToFirestore, Assoc.ofList]

/-- The name of the owner that is written. -/
theorem get_ownerName_written (hchange : call.change piece = .ok (some changed)) (now : DateTime) :
    (pieceToFirestore { changed with updatedAt := now }).get "ownerName" =
      some (.ofOption .string (piece.ownerName <|> call.ownerName)) := by
  rw [← (DocumentCall.change_frame hchange).2.2.2]
  simp [pieceToFirestore, Assoc.ofList]

/-- A mutation keeps the foreign fields exactly when the document has none. -/
theorem sameForeign_written_iff (hread : pieceFromFirestore call.pieceId data "" = some piece)
    (hchange : call.change piece = .ok (some changed)) (now : DateTime)
    (hsame : SameForeign reference data) :
    SameForeign reference (pieceToFirestore { changed with updatedAt := now }) ↔
      Modelled call data := by
  have hnameRead := (fields_of_pieceFromFirestore hread).2.2.2
  have hnameWritten := get_ownerName_written hchange now
  have hname : "ownerName" ∉ mutated := by decide
  constructor
  · intro hwritten
    refine ⟨fun key hfield => ?_, ?_⟩
    · by_contra hforeign
      have hkey : key ≠ "ownerName" := by
        rintro rfl
        exact hforeign (by decide)
      have hmutated : key ∉ mutated := fun h => hforeign (by
        simp only [modelled, mutated, List.mem_cons, List.not_mem_nil, or_false] at h ⊢
        grind)
      have hbefore := (hsame key hmutated).resolve_right fun h => hkey h.1
      have hafter := (hwritten key hmutated).resolve_right fun h => hkey h.1
      rw [get_pieceToFirestore _ hforeign, ← hbefore] at hafter
      exact hfield hafter.symm
    · by_contra! hnone
      obtain ⟨hmissing, hgiven⟩ := hnone
      have hnull : piece.ownerName = none := by
        cases hpiece : piece.ownerName with
        | none => rfl
        | some name => simp [Fields.read, hmissing, hpiece, Value.ofOption] at hnameRead
      rw [hnull, hgiven] at hnameWritten
      obtain hbefore | ⟨-, -, name, hbefore⟩ := hsame "ownerName" hname
      · obtain hafter | ⟨-, -, name, hafter⟩ := hwritten "ownerName" hname
        · rw [hnameWritten, ← hbefore, hmissing] at hafter
          cases hafter
        · rw [hnameWritten] at hafter
          cases Option.some.inj hafter
      · rw [hmissing] at hbefore
        cases hbefore
  · rintro ⟨hfields, hgiven⟩ key hmutated
    by_cases hkey : key = "ownerName"
    · subst hkey
      rw [hnameWritten]
      cases hpiece : piece.ownerName with
      | some name =>
        -- a name that is there is written back
        rw [hpiece] at hnameRead
        have hdata : data.get "ownerName" = some (.string name) :=
          Fields.get_of_read hnameRead fun hnull => by cases hnull
        obtain hbefore | ⟨-, hnull, -⟩ := hsame "ownerName" hname
        · exact .inl (by rw [← hbefore, hdata]; rfl)
        · exact .inr ⟨rfl, hnull, name, by rw [hnameWritten, hpiece]; rfl⟩
      | none =>
        rw [hpiece] at hnameRead
        have hbefore := (hsame "ownerName" hname).resolve_right (by
          rintro ⟨-, -, name, hdata⟩
          simp [Fields.read, hdata, Value.ofOption] at hnameRead)
        cases hcall : call.ownerName with
        | some name =>
          refine .inr ⟨rfl, ?_, name, by rw [hnameWritten, hpiece, hcall]; rfl⟩
          rw [Fields.read, ← hbefore]
          exact hnameRead
        | none =>
          left
          cases hdata : data.get "ownerName" with
          | none => simp [hdata, hcall] at hgiven
          | some value =>
            rw [← hbefore, hdata]
            simp only [Fields.read, hdata, Option.getD_some] at hnameRead
            rw [hnameRead]
            rfl
    · left
      have hbefore := (hsame key hmutated).resolve_right fun h => hkey h.1
      by_cases hmodelled : key ∈ modelled
      · rw [get_written hread hchange now hmodelled hmutated hkey, hbefore]
      · have hmissing : data.get key = none := by
          by_contra hfield
          exact hmodelled (hfields key hfield)
        rw [get_pieceToFirestore _ hmodelled, ← hbefore, hmissing]

end

/-- What the transaction of a call does to the documents. -/
theorem perform_mutation (call : DocumentCall) (now : DateTime) (cloud : Cloud) :
    (∃ data piece changed, cloud.doc (.pieces call.pieceId) = some data ∧
      pieceFromFirestore call.pieceId data "" = some piece ∧ call.change piece = .ok (some changed) ∧
        ((Operation.transaction (mutation call.pieceId now call.change)).perform cloud).2 =
          cloud.store (.pieces call.pieceId)
            (some (pieceToFirestore { changed with updatedAt := now }))) ∨
      (∀ data, cloud.doc (.pieces call.pieceId) = some data → ¬call.Writes data) ∧
        ((Operation.transaction (mutation call.pieceId now call.change)).perform cloud).2 = cloud := by
  rcases hdoc : cloud.doc (.pieces call.pieceId) with _ | data
  · refine .inr ⟨nofun, ?_⟩
    simp [Operation.perform, mutation, Transaction.run, hdoc, pieceFrom, Except.bind, Cloud.settle]
  rcases hread : pieceFromFirestore call.pieceId data "" with _ | piece
  · refine .inr ⟨?_, ?_⟩
    · rintro _ ⟨⟩ ⟨piece, changed, hpiece, -⟩
      rw [hread] at hpiece
      cases hpiece
    · simp [Operation.perform, mutation, Transaction.run, hdoc, pieceFrom, hread, Except.bind,
        Cloud.settle]
  rcases hchange : call.change piece with failure | _ | changed
  · refine .inr ⟨?_, ?_⟩
    · rintro _ ⟨⟩ ⟨piece', changed, hpiece, hchanged⟩
      obtain rfl := Option.some.inj (hread.symm.trans hpiece)
      cases hchange.symm.trans hchanged
    · simp [Operation.perform, mutation, Transaction.run, hdoc, pieceFrom, hread, Except.bind,
        hchange, Cloud.settle]
  · refine .inr ⟨?_, ?_⟩
    · rintro _ ⟨⟩ ⟨piece', changed, hpiece, hchanged⟩
      obtain rfl := Option.some.inj (hread.symm.trans hpiece)
      cases hchange.symm.trans hchanged
    · simp [Operation.perform, mutation, Transaction.run, hdoc, pieceFrom, hread, Except.bind,
        hchange, Cloud.settle, Cloud.commit]
  · refine .inl ⟨data, piece, changed, rfl, hread, hchange, ?_⟩
    simp [Operation.perform, mutation, Transaction.run, hdoc, pieceFrom, hread, Except.bind,
      hchange, Cloud.settle]

/-! ### One step -/

/-- A stamp does the same with and without the mutations. -/
theorem sameForeign_stamp {old new : Fields} (h : SameForeign old new) :
    SameForeign (old.set "basePdfUploaded" (.bool true)) (new.set "basePdfUploaded" (.bool true)) := by
  intro key hkey
  by_cases hstamp : key = "basePdfUploaded"
  · subst hstamp
    exact .inl (by simp)
  obtain hsame | ⟨rfl, hnull, name, hname⟩ := h key hkey
  · exact .inl (by simp [hstamp, hsame])
  · refine .inr ⟨rfl, ?_, name, by simp [hname]⟩
    rwa [Fields.read_set, if_neg hstamp]

theorem samePieces_store {old new : Cloud} (h : SamePieces old new) (pieceId : String)
    {before after : Option Fields} (hsame : Option.Rel SameForeign before after) :
    SamePieces (old.store (.pieces pieceId) before) (new.store (.pieces pieceId) after) := by
  intro pieceId'
  by_cases hpiece : pieceId' = pieceId
  · subst hpiece
    simpa using hsame
  · have hne : DocPath.pieces pieceId' ≠ .pieces pieceId := fun heq => hpiece (DocPath.pieces.inj heq)
    simpa [Cloud.doc_store_of_ne _ hne] using h pieceId'

theorem samePieces_store_iff {old new : Cloud} (h : SamePieces old new) {pieceId : String}
    {before : Fields} (hbefore : old.doc (.pieces pieceId) = some before) (after : Fields) :
    SamePieces old (new.store (.pieces pieceId) (some after)) ↔ SameForeign before after := by
  constructor
  · intro hsame
    have hpiece := hsame pieceId
    rw [hbefore, Cloud.doc_store_self] at hpiece
    cases hpiece with
    | some hforeign => exact hforeign
  · intro hforeign pieceId'
    by_cases hpiece : pieceId' = pieceId
    · subst hpiece
      rw [hbefore, Cloud.doc_store_self]
      exact .some hforeign
    · have hne : DocPath.pieces pieceId' ≠ .pieces pieceId :=
        fun heq => hpiece (DocPath.pieces.inj heq)
      rw [Cloud.doc_store_of_ne _ hne]
      exact h pieceId'

/-- What takes no effect changes nothing. -/
theorem apply_of_not_takesEffect {fate : Fate CloudFailure} (h : fate.takesEffect = false)
    {α : Type} (client : Client) (result : Except CloudFailure α × Client) :
    (fate.apply client result).2 = client := by
  cases fate <;> simp_all [Fate.takesEffect, Fate.apply]

theorem apply_of_takesEffect {fate : Fate CloudFailure} (h : fate.takesEffect = true)
    {α : Type} (client : Client) (result : Except CloudFailure α × Client) :
    (fate.apply client result).2 = result.2 := by
  cases fate <;> simp_all [Fate.takesEffect, Fate.apply]

variable {platform : Platform}

/-- An operation that changes no document. -/
theorem keepsForeign_interpret_of_reads {s : Mutations} (h : s.KeepsForeign) {o : ClientOperation}
    (hperform : (o.perform platform s.given s.client).2.cloud = s.client.cloud)
    (hafter : s.unmutatedAfter o = s.unmutated) : (interpret platform o s).2.KeepsForeign := by
  have hcloud : (interpret platform o s).2.client.cloud = s.client.cloud := by
    simp only [interpret]
    cases hfate : s.fate.takesEffect with
    | false => rw [apply_of_not_takesEffect hfate]
    | true => rw [apply_of_takesEffect hfate, hperform]
  rw [KeepsForeign, hcloud]
  simpa only [KeepsForeign, interpret, hafter] using h

theorem keepsForeign_interpret_stamp {s : Mutations} (h : s.KeepsForeign) (pieceId : String) :
    (interpret platform (.firestore (.commit [DocumentCall.stamp pieceId])) s).2.KeepsForeign := by
  cases hfate : s.fate.takesEffect with
  | false => simpa [KeepsForeign, interpret, unmutatedAfter, hfate, apply_of_not_takesEffect] using h
  | true =>
    have hstamp : ∀ cloud : Cloud, ((Operation.commit [DocumentCall.stamp pieceId]).perform cloud).2 =
        cloud.store (.pieces pieceId)
          (some (((cloud.doc (.pieces pieceId)).getD []).set "basePdfUploaded" (.bool true))) :=
      fun cloud => Operation.perform_write _ cloud
    have hbefore : SameForeign ((s.unmutated.doc (.pieces pieceId)).getD [])
        ((s.client.cloud.doc (.pieces pieceId)).getD []) := by
      have hdoc := h pieceId
      generalize s.unmutated.doc (.pieces pieceId) = old at hdoc
      generalize s.client.cloud.doc (.pieces pieceId) = new at hdoc
      cases hdoc with
      | some hsame => exact hsame
      | none => exact fun key _ => .inl rfl
    simpa only [KeepsForeign, interpret, unmutatedAfter, hfate, apply_of_takesEffect,
      ClientOperation.perform, hstamp, if_true] using
        samePieces_store h pieceId (.some (sameForeign_stamp hbefore))

/-- The transaction of a call keeps the foreign fields exactly when it finds none to write over. -/
theorem keepsForeign_interpret_mutation_iff {s : Mutations} (h : s.KeepsForeign) (call : DocumentCall)
    (now : DateTime) : (interpret platform (.firestore (.transaction
        (mutation call.pieceId now call.change))) s).2.KeepsForeign ↔
      (s.fate.takesEffect = true → ∀ data, s.client.cloud.doc (.pieces call.pieceId) = some data →
        call.Writes data → Modelled call data) := by
  cases hfate : s.fate.takesEffect with
  | false =>
    refine iff_of_true ?_ nofun
    simpa [KeepsForeign, interpret, unmutatedAfter, hfate, apply_of_not_takesEffect] using h
  | true =>
    simp only [KeepsForeign, interpret, unmutatedAfter, apply_of_takesEffect hfate,
      ClientOperation.perform]
    obtain ⟨data, piece, changed, hdoc, hread, hchange, hperform⟩ | ⟨hwrites, hperform⟩ :=
      perform_mutation call now s.client.cloud
    · obtain ⟨reference, hreference, hsame⟩ : ∃ reference,
          s.unmutated.doc (.pieces call.pieceId) = some reference ∧ SameForeign reference data := by
        have hbefore := h call.pieceId
        rw [hdoc] at hbefore
        generalize s.unmutated.doc (.pieces call.pieceId) = old at hbefore
        cases hbefore with
        | some hsame => exact ⟨_, rfl, hsame⟩
      rw [hperform, samePieces_store_iff h hreference,
        sameForeign_written_iff hread hchange now hsame]
      refine ⟨?_, fun hmodelled => hmodelled trivial data hdoc ⟨piece, changed, hread, hchange⟩⟩
      rintro hmodelled - data' hdoc' -
      obtain rfl := Option.some.inj (hdoc.symm.trans hdoc')
      exact hmodelled
    · rw [hperform]
      exact iff_of_true h fun _ data hdoc hcall => absurd hcall (hwrites data hdoc)

/-- One step keeps the foreign fields exactly when it spares them. -/
theorem keepsForeign_step_iff {s t : Running} {event : Event}
    (hissues : ∀ running ∈ s.running, running.job.IssuesCall running.program)
    (h : s.state.KeepsForeign) (hstep : step platform s event = some t) :
    t.state.KeepsForeign ↔ Spares s event := by
  cases event with
  | environment e =>
    obtain ⟨state, hmeet, rfl⟩ := Jobs.environment_step.mp hstep
    obtain rfl := Option.some.inj hmeet
    exact iff_of_true h trivial
  | start job =>
    obtain rfl := Jobs.start_step.mp hstep
    exact iff_of_true h trivial
  | lose i failure =>
    obtain ⟨running, o, k, hi, hprogram, rfl⟩ := Jobs.lose_step.mp hstep
    exact iff_of_true h trivial
  | advance i =>
    obtain ⟨running, o, k, hi, hprogram, rfl⟩ := Jobs.advance_step.mp hstep
    have hissued := (hissues running (List.mem_of_getElem? hi)).next (congrArg next? hprogram)
    have hspares : Spares s (.advance i) ↔ ((∃ body, o = .firestore (.transaction body)) →
        s.state.fate.takesEffect = true →
          ∀ data, s.state.client.cloud.doc (.pieces running.job.pieceId) = some data →
            running.job.Writes data → Modelled running.job data) := by
      simp [Spares, hi, hprogram, next?]
    dsimp only
    rw [hspares, hprogram, advance_call_snd]
    by_cases hoff : o.OffFirestore
    · refine iff_of_true (keepsForeign_interpret_of_reads h
        (ClientOperation.cloud_perform hoff _ _ _) ?_) ?_
      · cases o with
        | firestore op => exact absurd rfl (hoff op)
        | _ => rfl
      · rintro ⟨body, hbody⟩
        exact absurd hbody (hoff _)
    · obtain ⟨op, rfl⟩ : ∃ op, o = .firestore op := by simpa [ClientOperation.OffFirestore] using hoff
      cases op with
      | get path =>
        refine iff_of_true (keepsForeign_interpret_of_reads h rfl rfl) ?_
        rintro ⟨body, hbody⟩
        cases hbody
      | list query =>
        refine iff_of_true (keepsForeign_interpret_of_reads h rfl rfl) ?_
        rintro ⟨body, hbody⟩
        cases hbody
      | commit writes =>
        obtain rfl : writes = [DocumentCall.stamp running.job.pieceId] := hissued
        refine iff_of_true (keepsForeign_interpret_stamp h _) ?_
        rintro ⟨body, hbody⟩
        cases hbody
      | transaction body =>
        obtain ⟨now, rfl⟩ := hissued
        rw [keepsForeign_interpret_mutation_iff h]
        exact ⟨fun hmodelled _ => hmodelled, fun hmodelled => hmodelled ⟨_, rfl⟩⟩

/-- What cannot happen spares the documents. -/
theorem spares_of_step_eq_none {s : Running} {event : Event} (h : step platform s event = none) :
    Spares s event := by
  cases event with
  | advance i =>
    intro running hi hnext
    cases hprogram : running.program with
    | call o k => cases h.symm.trans (Jobs.advance_step.mpr ⟨running, o, k, hi, hprogram, rfl⟩)
    | _ => simp [hprogram, next?] at hnext
  | _ => trivial

/-- From any documents and any device, the mutations keep the foreign fields of every piece exactly
in the runs in which none writes a document that has a field of its own. -/
theorem keepsForeign_iff (platform : Platform) (client : Client) (given : Given)
    (fate : Fate CloudFailure) (events : List Event) :
    Always (step platform) (fun s => s.state.KeepsForeign)
        ⟨⟨client, given, fate, client.cloud⟩, []⟩ events ↔
      EachStep (step platform) Spares ⟨⟨client, given, fate, client.cloud⟩, []⟩ events := by
  refine always_iff_eachStep (I := fun s => ∀ running ∈ s.running,
      running.job.IssuesCall running.program)
    (fun s e t hissues _ hstep => ?_) (fun s e t hissues h hstep => keepsForeign_step_iff hissues h hstep)
    (fun s e => spares_of_step_eq_none) nofun fun pieceId => ?_
  · exact Jobs.issues_step DocumentCall.Issued DocumentCall.issues_program hissues hstep
  · cases client.cloud.doc (.pieces pieceId) with
    | none => exact .none
    | some data => exact .some fun key _ => .inl rfl

/-! ### A stamp that is lost -/

/-- A piece of `ann` whose base PDF is stored already. -/
def storedPiece : Client where
  device := .fresh
  cloud := Cloud.empty.store (.pieces "piece") (some (pieceToFirestore
    ⟨"piece", "Etude", "sum", "", "ann", none, [], .sinceEpoch 0, .sinceEpoch 0⟩))
  basePdfs := [("piece", ⟨.bytes [], "sum"⟩)]
  basePaths := []
  migrated := []
  done := []
  uploadQueue := []
  audioSeq := 0

/-- An upload is skipped and the piece stamped; then the piece is renamed. -/
def renamesStamped : List Event :=
  [.start (.uploadBasePdf "piece" "etude.pdf" "sum"), .advance 0, .advance 0,
    .start (.renamePiece "piece" "Prelude"), .advance 1, .advance 1]

/-- A platform without files. -/
def bare : Platform := ⟨"", fun _ => "", id⟩

/-- The new title takes the stamp with it. -/
theorem not_keepsForeign : ∃ t, run (step bare)
    ⟨⟨storedPiece, ⟨⟨1, by decide⟩, "", false⟩, .performed, storedPiece.cloud⟩, []⟩ renamesStamped =
      some t ∧ ¬t.state.KeepsForeign := by
  have hrun : (run (step bare)
      ⟨⟨storedPiece, ⟨⟨1, by decide⟩, "", false⟩, .performed, storedPiece.cloud⟩, []⟩
      renamesStamped).map (fun t =>
        ((t.state.unmutated.doc (.pieces "piece")).map fun old => old.get "basePdfUploaded",
          (t.state.client.cloud.doc (.pieces "piece")).map fun new => new.get "basePdfUploaded")) =
      some (some (some (.bool true)), some none) := by decide +kernel
  obtain ⟨t, ht, hdocs⟩ := Option.map_eq_some_iff.mp hrun
  simp only [Prod.mk.injEq] at hdocs
  obtain ⟨old, hold, hstamp⟩ := Option.map_eq_some_iff.mp hdocs.1
  obtain ⟨new, hnew, hlost⟩ := Option.map_eq_some_iff.mp hdocs.2
  refine ⟨t, ht, fun hkeeps => ?_⟩
  have hpiece := hkeeps "piece"
  rw [hold, hnew] at hpiece
  cases hpiece with
  | some hsame =>
    obtain hfield | ⟨hname, -⟩ := hsame "basePdfUploaded" (by decide)
    · rw [hstamp, hlost] at hfield
      cases hfield
    · exact absurd hname (by decide)

end Mutations

end Duet
