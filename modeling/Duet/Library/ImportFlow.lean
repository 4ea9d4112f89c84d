import Duet.Library.ImportPiece

/-!
# What an import ends with

A submit that fails or is cancelled keeps the piece that it has created, and the next one uploads
it. What has been picked or typed in between is shown, and is not what the piece was created from.

## Main definitions

* `ImportPieceBloc.Integral` — on success the piece is from what is shown, and was uploaded; each
  pick leads to one piece at most.
* `Imports.Steady` — nothing is picked or retitled over a piece that has been created or is being
  created, no upload is cancelled elsewhere, and a cancel ends before the next upload begins.

## Main results

* `Imports.integral_of_steady` — an import is integral in every run whose steps are steady.
-/

namespace Duet

open Lib Async

namespace ImportPieceBloc

/-- The piece was created from the picked file with the title that is shown. -/
def CreatedHere (b : ImportPieceBloc) (piece : Piece) : Prop :=
  ∃ entry ∈ b.created, entry.piece = piece ∧ b.state.sourcePath = some entry.sourcePath ∧
    entry.title = trim b.state.title

/-- The number of pieces that have been created since a pick and before the next one. -/
def createdAfter (b : ImportPieceBloc) (pick : Nat) : Nat := b.created.countP (·.pick == pick)

/-- On success the piece is from what is shown, and was uploaded; between two picks at most one piece
is created. -/
structure Integral (b : ImportPieceBloc) : Prop where
  success : b.state.status = .success →
    ∃ piece, b.state.piece = some piece ∧ b.CreatedHere piece ∧ piece ∈ b.uploaded
  once : ∀ pick, b.createdAfter pick ≤ 1

/-- While `importing`, the import of a submit is awaited. -/
structure Inv (b : ImportPieceBloc) (importing : Bool) : Prop where
  integral : b.Integral
  settled : b.state.status = .success → b.state.isSubmitting = false
  awaited : importing = true → b.state.isSubmitting = true ∧ b.createdPiece = none ∧
    b.listening = [] ∧ b.createdAfter b.picks = 0
  listens : b.listening = [] ∨ ∃ n piece, b.listening = [(n, piece)] ∧ b.createdPiece = some piece ∧
    b.state.isSubmitting = true ∧ n ∉ b.completed ∧ n ∉ b.ended
  kept : ∀ piece ∈ b.createdPiece, b.state.sourcePath = none ∨ b.CreatedHere piece
  source : b.state.isSubmitting = true → b.state.sourcePath ≠ none
  unused : b.state.status = .naming → b.createdPiece = none → b.createdAfter b.picks = 0
  listened : ∀ upload ∈ b.listening, upload.1 < b.uploads
  past : ∀ entry ∈ b.created, entry.pick ≤ b.picks
  completed : ∀ n ∈ b.completed, n < b.uploads
  ended : ∀ n ∈ b.ended, n < b.uploads
  completer : ∀ n ∈ b.uploadCompleter, n < b.uploads

/-- Nothing is retitled over a piece that has been created or is being created, and nothing is picked
over it; an upload ends when it has run to completion; and a cancel ends while no upload calls back
and no import is awaited. -/
def SteadyAt (b : ImportPieceBloc) (importing : Bool) :
    ImportEvent → Option (ImportAwait × ImportReply) → Prop
  | .titleChanged title, none => b.state.status = .naming →
    b.createdPiece.isSome = true ∨ b.state.isSubmitting = true → trim title = trim b.state.title
  | .uploadDone _ ran, none => ran = true
  | _, some (.openPdf _ _, .opened result) => b.state.isSubmitting = false ∧
    (result.isOk = true → b.createdPiece = none)
  | _, some (.cancel _, .cancelled) => b.listening = [] ∧ importing = false
  | _, _ => True

theorem inv_initial : initial.Inv false where
  integral := ⟨nofun, fun _ => Nat.zero_le _⟩
  settled := nofun
  awaited := nofun
  listens := .inl rfl
  kept := nofun
  source := nofun
  unused := nofun
  listened := nofun
  past := nofun
  completed := nofun
  ended := nofun
  completer := nofun

variable {b : ImportPieceBloc} {importing : Bool}

/-- Nothing is awaited and nothing calls back while nothing is being submitted. -/
theorem Inv.idle (h : b.Inv importing) (hidle : b.state.isSubmitting = false) :
    importing = false ∧ b.listening = [] := by
  constructor
  · cases himporting : importing with
    | false => rfl
    | true => exact absurd (h.awaited himporting).1 (by simp [hidle])
  · obtain hnone | ⟨n, piece, -, -, hsubmitting, -⟩ := h.listens
    · exact hnone
    · simp [hidle] at hsubmitting

/-- An upload that calls back is the only one, and nothing is awaited besides. -/
theorem Inv.calling (h : b.Inv importing) {n : Nat} {piece : Piece} (hpiece : b.pieceOf n = some piece) :
    importing = false ∧ b.listening = [(n, piece)] ∧ b.createdPiece = some piece ∧
      b.state.isSubmitting = true ∧ n ∉ b.completed ∧ n ∉ b.ended := by
  obtain hnone | ⟨m, piece', hlistening, hrest⟩ := h.listens
  · simp [pieceOf, hnone] at hpiece
  · obtain ⟨rfl, rfl⟩ : m = n ∧ piece' = piece := by
      by_cases hm : m = n <;> simp_all [pieceOf]
    refine ⟨?_, hlistening, hrest⟩
    cases himporting : importing with
    | false => rfl
    | true => exact absurd (h.awaited himporting).2.2.1 (by simp [hlistening])

/-! ### What the handlers do to the invariant -/

theorem CreatedHere.of_eq {t : ImportPieceBloc} {piece : Piece} (h : b.CreatedHere piece)
    (hcreated : t.created = b.created) (hsource : t.state.sourcePath = b.state.sourcePath)
    (htitle : trim t.state.title = trim b.state.title) : t.CreatedHere piece := by
  obtain ⟨entry, hentry, hpiece, hfrom, hnamed⟩ := h
  exact ⟨entry, hcreated ▸ hentry, hpiece, hsource.trans hfrom, hnamed.trans htitle.symm⟩

theorem Inv.validating (h : b.Inv importing) : b.validating.Inv importing :=
  { h with
    integral := ⟨nofun, h.integral.once⟩
    settled := nofun
    unused := nofun }

theorem Inv.onProgress (h : b.Inv importing) (n : Nat) (progress : UploadProgressEvent) :
    (b.onProgress n progress).Inv importing := by
  unfold ImportPieceBloc.onProgress
  split_ifs
  · exact h
  · exact { h with integral := ⟨h.integral.success, h.integral.once⟩ }

/-- A piece is picked once the last one is uploaded. -/
theorem Inv.named (h : b.Inv importing) (hidle : b.state.isSubmitting = false)
    (hnone : b.createdPiece = none) (path suggestedTitle : String) :
    (b.named path suggestedTitle).Inv importing :=
  { h with
    integral := ⟨nofun, h.integral.once⟩
    settled := nofun
    awaited := fun himporting => by simp [(h.idle hidle).1] at himporting
    listens := .inl (h.idle hidle).2
    kept := fun piece hkept => by cases hnone.symm.trans hkept
    source := nofun
    unused := fun _ _ => by
      refine List.countP_eq_zero.mpr fun entry hentry => ?_
      have hpast := h.past entry hentry
      simp only [ImportPieceBloc.named, beq_iff_eq]
      omega
    past := fun entry hentry => Nat.le_succ_of_le (h.past entry hentry) }

theorem Inv.rejected (h : b.Inv importing) (hidle : b.state.isSubmitting = false) (error : String) :
    (b.rejected error).Inv importing :=
  { h with
    integral := ⟨nofun, h.integral.once⟩
    settled := nofun
    awaited := fun himporting => by simp [(h.idle hidle).1] at himporting
    listens := .inl (h.idle hidle).2
    kept := fun _ _ => .inl rfl
    source := nofun
    unused := nofun }

/-- The title of a piece that has been created, or is being created, stays. -/
theorem Inv.retitled (h : b.Inv importing) {title : String}
    (htitle : b.state.status = .naming → b.createdPiece.isSome = true ∨ b.state.isSubmitting = true →
      trim title = trim b.state.title) : (b.retitled title).Inv importing := by
  unfold ImportPieceBloc.retitled
  split_ifs with hnaming
  · exact { h with
      integral := ⟨fun hsuccess => (by cases hnaming.symm.trans hsuccess), h.integral.once⟩
      kept := fun piece hkept => (h.kept piece hkept).imp_right fun hhere =>
        hhere.of_eq rfl rfl (htitle hnaming (.inl (Option.isSome_of_mem hkept))) }
  · exact h

theorem Inv.submitting (h : b.Inv importing) {sourcePath : String}
    (hsource : b.state.sourcePath = some sourcePath) (hcan : b.state.canSubmit = true) :
    b.submitting.Inv b.createdPiece.isNone := by
  simp only [ImportPieceState.canSubmit, Bool.and_eq_true, beq_iff_eq, Bool.not_eq_true'] at hcan
  obtain ⟨⟨hnaming, hidle⟩, -⟩ := hcan
  have hlistening := (h.idle hidle).2
  exact { h with
    integral := ⟨fun hsuccess => (by cases hnaming.symm.trans hsuccess), h.integral.once⟩
    settled := fun hsuccess => by cases hnaming.symm.trans hsuccess
    awaited := fun hnone => by
      have hnone := Option.isNone_iff_eq_none.mp hnone
      exact ⟨rfl, hnone, hlistening, h.unused hnaming hnone⟩
    listens := .inl hlistening
    source := fun _ hnone => by cases hsource.symm.trans hnone }

/-- The first piece since the last pick is created from what is shown. -/
theorem Inv.creating (h : b.Inv true) {sourcePath title : String}
    (hsource : b.state.sourcePath = some sourcePath) (htitle : title = trim b.state.title)
    (piece : Piece) : (b.creating sourcePath title piece).Inv false := by
  obtain ⟨hsubmitting, -, hlistening, hunused⟩ := h.awaited rfl
  exact { h with
    integral := by
      refine ⟨fun hsuccess => ?_, fun pick => ?_⟩
      · simp [h.settled hsuccess] at hsubmitting
      · have honce := h.integral.once pick
        by_cases hpick : b.picks = pick
        · subst hpick
          simp_all [createdAfter, ImportPieceBloc.creating]
        · simpa [createdAfter, ImportPieceBloc.creating, hpick] using honce
    awaited := nofun
    listens := .inl hlistening
    kept := by
      rintro _ ⟨⟩
      exact .inr ⟨_, List.mem_append_right _ List.mem_cons_self, rfl, hsource, htitle⟩
    unused := nofun
    past := fun entry hentry => by
      obtain hold | hnew := List.mem_append.mp hentry
      · exact h.past entry hold
      · obtain rfl := List.mem_singleton.mp hnew
        exact le_rfl }

theorem Inv.uploading (h : b.Inv false) {piece : Piece} (hlistening : b.listening = [])
    (hkept : b.createdPiece = some piece) (hsubmitting : b.state.isSubmitting = true) :
    (b.uploading piece).Inv false :=
  { h with
    integral := ⟨h.integral.success, h.integral.once⟩
    awaited := nofun
    listens := by
      refine .inr ⟨b.uploads, piece, by simp [ImportPieceBloc.uploading, hlistening], hkept,
        hsubmitting, fun hold => ?_, fun hold => ?_⟩
      · exact (h.completed _ hold).false
      · exact (h.ended _ hold).false
    listened := by simp [ImportPieceBloc.uploading, hlistening]
    completed := fun n hn => Nat.lt_succ_of_lt (h.completed n hn)
    ended := fun n hn => Nat.lt_succ_of_lt (h.ended n hn)
    completer := by
      rintro _ ⟨⟩
      exact Nat.lt_succ_self _ }

theorem Inv.ending (h : b.Inv importing) {n : Nat} (hn : n ∈ b.completed) :
    (b.ending n).Inv importing :=
  { h with
    integral := ⟨h.integral.success, h.integral.once⟩
    listens := h.listens.imp_right fun ⟨m, piece, hlistening, hkept, hsubmitting, hm, hended⟩ => by
      refine ⟨m, piece, hlistening, hkept, hsubmitting, hm, fun hmem => ?_⟩
      obtain hold | hnew := List.mem_append.mp hmem
      · exact hended hold
      · exact hm (List.mem_singleton.mp hnew ▸ hn)
    ended := fun m hm => by
      obtain hold | hnew := List.mem_append.mp hm
      · exact h.ended m hold
      · exact List.mem_singleton.mp hnew ▸ h.completed n hn
    completer := nofun }

theorem Inv.silenced (h : b.Inv importing) (n : Nat) : (b.silenced n).Inv importing :=
  { h with
    integral := ⟨h.integral.success, h.integral.once⟩
    awaited := fun himporting => by
      obtain ⟨hsubmitting, hnone, hlistening, hunused⟩ := h.awaited himporting
      exact ⟨hsubmitting, hnone, by simp [ImportPieceBloc.silenced, hlistening], hunused⟩
    listens := by
      obtain hnone | ⟨m, piece, hlistening, hrest⟩ := h.listens
      · exact .inl (by simp [ImportPieceBloc.silenced, hnone])
      · by_cases hm : m = n
        · exact .inl (by simp [ImportPieceBloc.silenced, hlistening, hm])
        · exact .inr ⟨m, piece, by simp [ImportPieceBloc.silenced, hlistening, hm], hrest⟩
    listened := fun upload hupload => h.listened upload (List.mem_of_mem_filter hupload) }

/-- The form is shown again, and nothing calls back. -/
theorem Inv.idled (h : b.Inv importing) (state : ImportPieceState)
    (hlistening : b.listening = []) (hstatus : state.status = b.state.status)
    (hpiece : state.piece = b.state.piece) (hsource : state.sourcePath = b.state.sourcePath)
    (htitle : state.title = b.state.title) (hidle : state.isSubmitting = false) :
    ({ b with state := state } : ImportPieceBloc).Inv false where
  integral := by
    refine ⟨fun hsuccess => ?_, h.integral.once⟩
    obtain ⟨piece, hpiece', hhere, huploaded⟩ := h.integral.success (hstatus.symm.trans hsuccess)
    exact ⟨piece, hpiece.trans hpiece',
      hhere.of_eq rfl hsource (congrArg trim htitle), huploaded⟩
  settled := fun _ => hidle
  awaited := nofun
  listens := .inl hlistening
  kept := fun piece hkept => (h.kept piece hkept).imp hsource.trans fun hhere =>
    hhere.of_eq rfl hsource (congrArg trim htitle)
  source := fun hsubmitting => by simp [hidle] at hsubmitting
  unused := fun hnaming => h.unused (hstatus.symm.trans hnaming)
  listened := h.listened
  past := h.past
  completed := h.completed
  ended := h.ended
  completer := h.completer

theorem Inv.complete (h : b.Inv importing) (hlistening : b.listening = []) {n : Nat}
    (hn : n < b.uploads) : (b.complete n).Inv importing := by
  unfold ImportPieceBloc.complete
  split_ifs
  · exact h
  · exact { h with
      integral := ⟨h.integral.success, h.integral.once⟩
      listens := .inl hlistening
      completed := fun m hm => by
        obtain hold | hnew := List.mem_append.mp hm
        · exact h.completed m hold
        · exact List.mem_singleton.mp hnew ▸ hn }

theorem Inv.cancelled (h : b.Inv importing) (hlistening : b.listening = []) :
    b.cancelled.Inv false :=
  have hidled := h.idled { b.state with isSubmitting := false, progress := none } hlistening rfl rfl
    rfl rfl rfl
  { hidled with integral := ⟨hidled.integral.success, hidled.integral.once⟩ }

@[simp] theorem state_complete (n : Nat) : (b.complete n).state = b.state := by
  unfold ImportPieceBloc.complete
  split_ifs <;> rfl

theorem silenced_complete (n m : Nat) : (b.complete n).silenced m = (b.silenced m).complete n := by
  by_cases hn : n ∈ b.completed <;>
    simp [ImportPieceBloc.complete, ImportPieceBloc.silenced, hn]

/-- An upload that calls back is silenced. -/
theorem Inv.listening_silenced (h : b.Inv importing) {n : Nat} {piece : Piece}
    (hpiece : b.pieceOf n = some piece) : (b.silenced n).listening = [] := by
  simp [ImportPieceBloc.silenced, (h.calling hpiece).2.1]

theorem Inv.onError (h : b.Inv importing) {n : Nat} {piece : Piece}
    (hpiece : b.pieceOf n = some piece) (error : String) : (b.onError n error).Inv importing := by
  obtain ⟨rfl, hlistening, -, -, -, hended⟩ := h.calling hpiece
  have hn : n < b.uploads := h.listened (n, piece) (by simp [hlistening])
  unfold ImportPieceBloc.onError
  rw [if_neg hended, silenced_complete]
  exact Inv.complete ((h.silenced n).idled (b.submitFailed error).state
    (h.listening_silenced hpiece) rfl rfl rfl rfl rfl) (h.listening_silenced hpiece) hn

/-- An upload that has run to completion is of the piece that is shown. -/
theorem Inv.onDone (h : b.Inv importing) {n : Nat} {piece : Piece}
    (hpiece : b.pieceOf n = some piece) : (b.onDone n piece true).Inv importing := by
  obtain ⟨rfl, hlistening, hkept, hsubmitting, -, hended⟩ := h.calling hpiece
  have hn : n < b.uploads := h.listened (n, piece) (by simp [hlistening])
  have hhere := (h.kept piece hkept).resolve_left (h.source hsubmitting)
  unfold ImportPieceBloc.onDone
  dsimp only
  rw [if_neg hended, silenced_complete]
  have hdone : ({ b.silenced n with
      state := { b.state with
        status := .success
        piece := some piece
        isSubmitting := false }
      createdPiece := none
      uploaded := b.uploaded ++ [piece] } : ImportPieceBloc).Inv false :=
    { h.silenced n with
      integral :=
        ⟨fun _ => ⟨piece, rfl, hhere.of_eq rfl rfl rfl, List.mem_append_right _ List.mem_cons_self⟩,
          h.integral.once⟩
      settled := fun _ => rfl
      awaited := nofun
      listens := .inl (h.listening_silenced hpiece)
      kept := nofun
      source := nofun
      unused := nofun }
  exact hdone.complete (h.listening_silenced hpiece) hn

end ImportPieceBloc

/-! ## The segments -/

/-- The creation of a piece is awaited. -/
def ImportAwait.isImport : ImportAwait → Bool
  | importPiece _ _ => true
  | _ => false

/-- What is awaited is created from what is shown. -/
def ImportAwait.Asks (b : ImportPieceBloc) (point : ImportAwait) : Prop :=
  ∀ sourcePath title, point = .importPiece sourcePath title →
    b.state.sourcePath = some sourcePath ∧ title = trim b.state.title

theorem ImportAwait.accepts_upload {b : ImportPieceBloc} {n : Nat} {reply : ImportReply}
    (h : (ImportAwait.upload n).accepts b reply = true) : n ∈ b.completed := by
  cases reply with
  | completed => exact List.contains_iff_mem.mp h
  | _ => cases h

theorem ImportAwait.accepts_cancel {b : ImportPieceBloc} {n : Nat} {reply : ImportReply}
    (h : (ImportAwait.cancel n).accepts b reply = true) : reply = .cancelled := by
  cases reply with
  | cancelled => rfl
  | _ => cases h

section

variable {b t : ImportPieceBloc} {e : ImportEvent} {from? : Option (ImportAwait × ImportReply)}
  {stop : Stop ImportAwait ImportFailure Unit} {others : Bool}

/-- A segment keeps the invariant, where the upload that calls back is listened to. -/
theorem ImportSegment.inv (hseg : ImportSegment e from? b stop t)
    (haccepts : ∀ point reply, from? = some (point, reply) → point.accepts b reply = true)
    (hlistens : ∀ n error, e = .uploadError n error → from? = none → (b.pieceOf n).isSome = true)
    (hasks : ∀ point ∈ from?, point.1.Asks b)
    (hsingle : others = true → from?.any (·.1.isImport) = false)
    (h : b.Inv (others || from?.any (·.1.isImport))) (hsteady : b.SteadyAt others e from?) :
    t.Inv (others || stop.point?.any (·.isImport)) := by
  cases hseg with
  | picking | noPick | notSubmitted | notCancelled | notListening => exact h
  | picked => exact h.validating
  | named _ path suggestedTitle pages => exact h.named hsteady.1 (hsteady.2 rfl) path suggestedTitle
  | rejected _ path suggestedTitle error => exact h.rejected hsteady.1 error
  | retitled _ title => exact h.retitled hsteady
  | importing _ sourcePath hsource hcan hnone =>
    have hsubmitting := h.submitting hsource hcan
    simpa [hnone, Stop.point?, ImportAwait.isImport] using hsubmitting
  | resubmitting _ sourcePath piece hsource hcan hkept =>
    have hidle : b.state.isSubmitting = false := by
      simp only [ImportPieceState.canSubmit, Bool.and_eq_true, Bool.not_eq_true'] at hcan
      exact hcan.1.2
    obtain ⟨hothers, hlistening⟩ := h.idle hidle
    have hsubmitting := h.submitting hsource hcan
    rw [hkept, Option.isNone_some] at hsubmitting
    simpa [Stop.point?, ImportAwait.isImport, (Bool.or_eq_false_iff.mp hothers).1] using
      hsubmitting.uploading hlistening hkept rfl
  | created _ sourcePath title piece =>
    obtain rfl : others = false := by simpa [ImportAwait.isImport] using hsingle
    obtain ⟨hsource, htitle⟩ := hasks _ rfl sourcePath title rfl
    obtain ⟨hsubmitting, -, hlistening, -⟩ := h.awaited rfl
    exact (h.creating hsource htitle piece).uploading hlistening rfl hsubmitting
  | importFailed _ sourcePath title error =>
    obtain rfl : others = false := by simpa [ImportAwait.isImport] using hsingle
    exact h.idled (b.submitFailed error).state (h.awaited rfl).2.2.1 rfl rfl rfl rfl rfl
  | ended _ n reply => exact h.ending (ImportAwait.accepts_upload (haccepts _ reply rfl))
  | cancelling _ n => exact h.silenced n
  | nothingToComplete _ n reply =>
    obtain rfl := ImportAwait.accepts_cancel (haccepts _ reply rfl)
    obtain ⟨hlistening, rfl⟩ := hsteady
    exact h.cancelled hlistening
  | alreadyCompleted _ n m reply =>
    obtain rfl := ImportAwait.accepts_cancel (haccepts _ reply rfl)
    obtain ⟨hlistening, rfl⟩ := hsteady
    exact h.cancelled hlistening
  | cancelled _ n m reply hcompleter =>
    obtain rfl := ImportAwait.accepts_cancel (haccepts _ reply rfl)
    obtain ⟨hlistening, rfl⟩ := hsteady
    have hcomplete := (h.cancelled hlistening).complete hlistening (h.completer m hcompleter)
    exact { hcomplete with
      integral := ⟨hcomplete.integral.success, hcomplete.integral.once⟩
      completer := nofun }
  | progress _ n progress => exact h.onProgress n progress
  | error _ n error =>
    obtain ⟨piece, hpiece⟩ := Option.isSome_iff_exists.mp (hlistens n error rfl rfl)
    exact h.onError hpiece error
  | done _ n piece ran hpiece =>
    obtain rfl : ran = true := hsteady
    exact h.onDone hpiece
  | mismatch _ _ point reply hnot => exact absurd (haccepts point reply rfl) (by simp [hnot b])

/-- What is awaited by the import of another submit stays. -/
theorem ImportSegment.keeps (hseg : ImportSegment e from? b stop t)
    (hlistens : ∀ n error, e = .uploadError n error → from? = none → (b.pieceOf n).isSome = true)
    (h : b.Inv true) (hsteady : b.SteadyAt true e from?) :
    t.state.sourcePath = b.state.sourcePath ∧ trim t.state.title = trim b.state.title := by
  have hsubmitting := (h.awaited rfl).1
  have hcalls : ∀ n piece, b.pieceOf n ≠ some piece := fun n piece hpiece =>
    nomatch (h.calling hpiece).1
  cases hseg with
  | named | rejected => cases hsteady.1.symm.trans hsubmitting
  | retitled _ title =>
    unfold ImportPieceBloc.retitled
    split_ifs with hnaming
    · exact ⟨rfl, hsteady hnaming (.inr hsubmitting)⟩
    · exact ⟨rfl, rfl⟩
  | progress _ n progress =>
    unfold ImportPieceBloc.onProgress
    split_ifs <;> exact ⟨rfl, rfl⟩
  | error _ n error =>
    obtain ⟨piece, hpiece⟩ := Option.isSome_iff_exists.mp (hlistens n error rfl rfl)
    exact absurd hpiece (hcalls n piece)
  | done _ n piece ran hpiece => exact absurd hpiece (hcalls n piece)
  | cancelled => simp [ImportPieceBloc.cancelled]
  | _ => exact ⟨rfl, rfl⟩

/-- A submit asks for a piece while none is asked for. -/
theorem ImportSegment.single (hseg : ImportSegment e from? b stop t)
    (h : b.Inv (others || from?.any (·.1.isImport))) (hasked : stop.point?.any (·.isImport) = true) :
    others = false := by
  cases hseg with
  | importing _ sourcePath hsource hcan =>
    simp only [ImportPieceState.canSubmit, Bool.and_eq_true, Bool.not_eq_true'] at hcan
    exact (Bool.or_eq_false_iff.mp (h.idle hcan.1.2).1).1
  | _ => cases hasked

/-- A submit asks for what is shown. -/
theorem ImportSegment.asks (hseg : ImportSegment e from? b stop t) :
    ∀ point ∈ stop.point?, point.Asks t := by
  rintro point hpoint sourcePath title rfl
  cases hseg with
  | importing _ sourcePath hsource =>
    cases hpoint
    exact ⟨hsource, rfl⟩
  | _ => cases hpoint

end

/-! ## Runs -/

namespace Imports

/-- An import of a submit is awaited. -/
def importing (running : List (Task ImportEvent ImportAwait ImportReply ImportPieceBloc ImportFailure
    Unit)) : Bool :=
  running.any fun task => task.rest.point?.any (·.isImport)

/-- The event is steady, in the state before it. -/
def Steady (s : Imports) : ImportStep → Prop
  | .call e => s.state.SteadyAt (importing s.running) e none
  | .resume i reply => ∀ task ∈ s.running[i]?, ∀ point ∈ task.rest.point?,
      s.state.SteadyAt (importing (s.running.eraseIdx i)) task.call (some (point, reply))
  | .kill => True

/-- The handlers are as specified, and at most one import is awaited, which is asked for what is
shown. -/
structure Inv (s : Imports) : Prop where
  obeys : s.ObeysOn ImportSegment
  state : s.state.Inv (importing s.running)
  single : s.running.countP (fun task => task.rest.point?.any (·.isImport)) ≤ 1
  asks : ∀ task ∈ s.running, ∀ point ∈ task.rest.point?, point.Asks s.state

theorem inv_start : Inv (Lib.Isolate.start .initial) where
  obeys := nofun
  state := ImportPieceBloc.inv_initial
  single := Nat.zero_le _
  asks := nofun

variable {s t : Imports}

/-- A handler that goes through a segment keeps the invariant of those that run besides. -/
theorem inv_settle {c : ImportEvent} {left : ImportProgram Unit × ImportPieceBloc}
    {stop : Stop ImportAwait ImportFailure Unit} {from? : Option (ImportAwait × ImportReply)}
    (hobeys : (s.settle c left).ObeysOn ImportSegment) (hstop : left.1.stop? = some stop)
    (hseg : ImportSegment c from? s.state stop left.2)
    (haccepts : ∀ point reply, from? = some (point, reply) → point.accepts s.state reply = true)
    (hlistens : ∀ n error, c = .uploadError n error → from? = none →
      (s.state.pieceOf n).isSome = true)
    (hsteady : s.state.SteadyAt (importing s.running) c from?)
    (hstate : s.state.Inv (importing s.running || from?.any (·.1.isImport)))
    (hsingle : s.running.countP (fun task => task.rest.point?.any (·.isImport)) +
      (from?.any (·.1.isImport)).toNat ≤ 1)
    (hfrom : ∀ point ∈ from?, point.1.Asks s.state)
    (hasks : ∀ task ∈ s.running, ∀ point ∈ task.rest.point?, point.Asks s.state) :
    Inv (s.settle c left) where
  obeys := hobeys
  state := by
    rw [Lib.Isolate.state_settle, importing, Lib.Isolate.any_point_settle hstop]
    refine hseg.inv haccepts hlistens hfrom (fun hothers => ?_) hstate hsteady
    obtain ⟨task, htask, hasked⟩ := List.any_eq_true.mp hothers
    have hpos : 0 < s.running.countP fun task => task.rest.point?.any (·.isImport) :=
      List.countP_pos_iff.mpr ⟨task, htask, hasked⟩
    by_contra hfrom
    simp only [Bool.not_eq_false] at hfrom
    simp only [hfrom, Bool.toNat_true] at hsingle
    omega
  single := by
    rw [Lib.Isolate.countP_point_settle hstop]
    cases hasked : stop.point?.any (·.isImport) with
    | false => exact (Nat.le_add_right _ _).trans hsingle
    | true =>
      have hnone := hseg.single hstate hasked
      rw [List.countP_eq_zero.mpr fun task htask => by simpa using List.any_eq_false.mp hnone task htask]
      exact le_rfl
  asks := by
    intro task htask point hpoint
    rw [Lib.Isolate.state_settle]
    obtain hold | rfl := Lib.Isolate.mem_running_settle htask
    · rintro sourcePath title rfl
      have himporting : importing s.running = true :=
        List.any_eq_true.mpr ⟨task, hold, by rw [hpoint]; rfl⟩
      rw [himporting, Bool.true_or] at hstate
      obtain ⟨hsource, htitle⟩ := hseg.keeps hlistens hstate (himporting ▸ hsteady)
      rw [hsource, htitle]
      exact hasks task hold _ hpoint sourcePath title rfl
    · refine hseg.asks point ?_
      cases stop with
      | waits point' => exact (point?_of_stop? hstop).1.symm.trans hpoint
      | ends outcome => cases (ended?_of_stop? hstop).1.symm.trans hpoint

/-- Every steady step keeps the invariant. -/
theorem inv_step {event : ImportStep} (h : s.Inv) (hsteady : s.Steady event)
    (hstep : step s event = some t) : t.Inv := by
  unfold step at hstep
  split_ifs at hstep with henabled
  obtain ⟨hobeys, hseg⟩ := Lib.Isolate.obeysOn_step follows_importEvent h.obeys hstep
  cases event with
  | call e =>
    obtain ⟨left, stop, hstop, hseg, rfl⟩ := hseg
    refine inv_settle hobeys hstop hseg nofun ?_ hsteady ?_ h.single nofun h.asks
    · rintro n error rfl -
      exact henabled
    · simpa using h.state
  | resume i reply =>
    obtain ⟨c, point, k, left, stop, hrunning, hstop, hseg, rfl⟩ := hseg
    refine inv_settle hobeys hstop hseg ?_ nofun (hsteady _ hrunning _ rfl) ?_ ?_ ?_ ?_
    · rintro _ _ ⟨⟩
      simpa [enabled, hrunning] using henabled
    · have hstate := h.state
      rw [importing, Lib.Isolate.any_point_eraseIdx hrunning] at hstate
      exact hstate
    · have hsingle := h.single
      rw [← Lib.Isolate.countP_point_eraseIdx hrunning] at hsingle
      exact hsingle
    · rintro _ ⟨⟩
      exact h.asks _ (List.mem_of_getElem? hrunning) point rfl
    · exact fun task htask => h.asks task (List.mem_of_mem_eraseIdx htask)
  | kill => cases henabled

/-- In every run whose steps are steady, an import is integral. -/
theorem integral_of_steady (events : List ImportStep)
    (h : EachStep step Steady (Lib.Isolate.start .initial) events) :
    Always step (fun s => s.state.Integral) (Lib.Isolate.start .initial) events :=
  Always.of_invariant (I := Inv) (fun _ _ _ hinv hsteady hstep => inv_step hinv hsteady hstep)
    (fun _ hinv => hinv.state.integral) inv_start h

/-! ### A title that is edited between two submits -/

/-- The piece that is created from a file. -/
def pieceFrom (title path : String) : Piece :=
  ⟨"etude", title, "sum", path, "ann", none, [], .sinceEpoch 0, .sinceEpoch 0⟩

/-- A file is picked and submitted, and its upload fails. -/
def failedImport : List ImportStep :=
  [.call .pickRequested, .resume 0 (.picked (some ("etude.pdf", " Etude"))),
    .resume 0 (.opened (.ok 3)), .call .submitted,
    .resume 0 (.imported (.ok (pieceFrom "Etude" "etude.pdf"))),
    .call (.uploadError 0 "offline"), .resume 0 .completed]

instance (b : ImportPieceBloc) (importing : Bool) (e : ImportEvent)
    (from? : Option (ImportAwait × ImportReply)) : Decidable (b.SteadyAt importing e from?) := by
  unfold ImportPieceBloc.SteadyAt
  split <;> infer_instance

instance (s : Imports) (event : ImportStep) : Decidable (s.Steady event) := by
  unfold Steady
  split <;> infer_instance

/-- A submit after a failed upload, which is cancelled, and another one. -/
theorem integral_of_steady_retried :
    Always step (fun s => s.state.Integral) (Lib.Isolate.start .initial) (failedImport ++
      [.call .submitted, .call .cancelled, .resume 1 .cancelled, .resume 0 .completed,
        .call .submitted, .call (.uploadDone 2 true)]) :=
  integral_of_steady _ (by decide +kernel)

/-- A piece is uploaded under the title it was created with. -/
theorem not_integral : ∃ t, run step (Lib.Isolate.start .initial) (failedImport ++
    [.call (.titleChanged "Prelude"), .call .submitted, .call (.uploadDone 1 true)]) = some t ∧
      t.state.state.status = .success ∧ ¬t.state.Integral := by
  have hrun : (run step (Lib.Isolate.start .initial) (failedImport ++
      [.call (.titleChanged "Prelude"), .call .submitted, .call (.uploadDone 1 true)])).map
        (fun t => (t.state.state.status, t.state.created.all fun entry =>
          entry.title != trim t.state.state.title)) = some (.success, true) := by decide +kernel
  obtain ⟨t, ht, hstate⟩ := Option.map_eq_some_iff.mp hrun
  obtain ⟨hsuccess, htitle⟩ := Prod.mk.inj hstate
  refine ⟨t, ht, hsuccess, fun hintegral => ?_⟩
  obtain ⟨piece, -, ⟨entry, hentry, -, -, hnamed⟩, -⟩ := hintegral.success hsuccess
  have hother := List.all_eq_true.mp htitle entry hentry
  simp [hnamed] at hother

end Imports

end Duet
