import Duet.Device.Interleaving
import Duet.Lib.Async
import Duet.ReviewSync.Import

/-!
# Exports that overlap

An export takes its snapshot of the annotations before it awaits the files that it packs, and its
stamp after them. Exports overlap at their awaits, with each other and with the author's edits.

## Main definitions

* `Exporting.exportBundle` — an export with its awaits.
* `ReviewExports.step` — the edits and the exports of one author's slice, under a clock.
* `NewestWins` — a greater stamp has seen every edit that a smaller one has.

## Main results

* `alone_exportBundle` — an export that nothing overtakes is the service's operation.
* `newestWins_of_inOrder` — in a run where no export is overtaken by one with further edits, the
  stamps of all exports order them by their edits.
-/

namespace Duet

open Lib Async

/-- An export has been stamped: how many edits had been written before its snapshot was taken, and
its `exportedAtMillis`. -/
structure ExportStamp where
  writes : Nat
  millis : Int
  deriving DecidableEq, Repr

/-- The edits that the snapshot contains, in the order in which they were written. -/
def ExportStamp.Contains (stamp : ExportStamp) (edit : Nat) : Prop := edit < stamp.writes

/-- The device, the calls on a piece's annotations, who is signed in, the clock, and, for the
record, the stamps of the exports. -/
structure Exporting where
  edits : Isolate
  currentUserId : String
  currentUserName : Option String
  clock : DateTime
  stamped : List ExportStamp

inductive ExportAwait where
  | getPiece | snapshot | pathFor | readAudio | readPdf | bundlesDirectory | writeBundle
  | markShared
  deriving DecidableEq, Repr

/-- What an export awaits between its snapshot and its stamp. -/
def ExportAwait.packs : ExportAwait → Bool
  | snapshot | pathFor | readAudio | readPdf => true
  | getPiece | bundlesDirectory | writeBundle | markShared => false

/-- What comes back from a platform call. -/
abbrev ExportReply := Except Failure Unit

abbrev ExportProgram (α : Type) := Async ExportAwait ExportReply Exporting Failure α

namespace Exporting

def device (s : Exporting) : Device := s.edits.device

/-- The device has been changed. -/
def onDevice (s : Exporting) (f : Device → Device) : Exporting :=
  { s with edits := { s.edits with device := f s.edits.device } }

/-- An export is stamped. -/
def stamp (s : Exporting) (writes : Nat) : Exporting :=
  { s with stamped := s.stamped ++ [⟨writes, s.clock.millisecondsSinceEpoch⟩] }

/-- Await a platform call. -/
def awaitCall (point : ExportAwait) : ExportProgram Unit := do
  let reply ← suspend point
  ofExcept reply

/-- The loop over the author's notes. -/
def packAudio : List AudioNote → Archive → ExportProgram (List ManifestAudioEntry × Archive)
  | [], archive => done ([], archive)
  | note :: rest, archive =>
    if note.isTombstoned then do
      let (entries, packed) ← packAudio rest archive
      done (⟨note, none⟩ :: entries, packed)
    else do
      let reply ← suspend .pathFor
      let s ← get
      let path : Except Failure AudioAsset := reply.bind fun _ =>
        match s.device.audioAssets.get note.audioAssetId with
        | none => .error (.stateError s!"Unknown audio asset: {note.audioAssetId}")
        | some asset => .ok asset
      match path with
      | .error error => fail (.reviewSyncCaused s!"Missing audio asset for note {note.id}: " error)
      | .ok asset => do
        let fileName := note.id ++ asset.extension
        awaitCall .readAudio
        let (entries, packed) ← packAudio rest
          (archive.addFile ⟨"audio/" ++ fileName, asset.content⟩)
        done (⟨note, some fileName⟩ :: entries, packed)

/-- The first export from this device carries the base PDF, when its file is there. -/
def packBasePdf (pieceId : String) (piece : Piece) (archive : Archive) :
    ExportProgram (Option String × Archive) := do
  let s ← get
  match s.device.files.get piece.basePdfPath with
  | some content =>
    if s.device.storage.baseShared.get pieceId ≠ some true then do
      let pdfFilename := Path.basename piece.basePdfPath
      awaitCall .readPdf
      done (some pdfFilename, archive.addFile ⟨"pdf/" ++ pdfFilename, content⟩)
    else done (none, archive)
  | none => done (none, archive)

def setBaseShared (pieceId : String) : Option String → ExportProgram Unit
  | none => done ()
  | some _ => do
    awaitCall .markShared
    modify fun s => s.onDevice fun d => { d with storage := { d.storage with
      baseShared := d.storage.baseShared.set pieceId true } }

/-- `exportBundle` from where its files have been packed; the snapshot has been taken after `writes`
edits. -/
def finishExport (bundlesDirectory pieceId authorId : String) (piece : Piece) (layer : InkLayer)
    (authorNotes : List AudioNote) (writes : Nat) (audioEntries : List ManifestAudioEntry)
    (pdfFilename : Option String) (packed : Archive) : ExportProgram ExportedBundle := do
  let s ← get
  let now := s.clock
  modify fun s => s.stamp writes
  let authorName := if authorId = s.currentUserId then s.currentUserName else none
  let manifest : ReviewManifest := ⟨1, pieceId, piece.title, authorId, authorName,
    now.millisecondsSinceEpoch, piece.basePdfChecksum, pdfFilename, layer.strokes, audioEntries⟩
  let archive := packed.addFile ⟨"manifest.json", .json manifest.toJson⟩
  awaitCall .bundlesDirectory
  awaitCall .writeBundle
  setBaseShared pieceId pdfFilename
  let fileName := s!"duet_{pieceId}_{authorId}_{now.millisecondsSinceEpoch}.duet"
  done ⟨pieceId, Path.join bundlesDirectory fileName,
    ⟨piece.title, layer.strokes.length,
      (authorNotes.filter fun n => !n.isTombstoned).length, now⟩, archive⟩

/-- `_requirePiece`. -/
def requirePiece (pieceId : String) : ExportProgram Piece := do
  let s ← get
  let reply ← suspend .getPiece
  match reply.bind fun _ => s.device.getPiece pieceId with
  | .error error => fail (.reviewSyncCaused s!"Unknown piece: {pieceId} " error)
  | .ok piece => done piece

/-- `exportBundle` from where the piece is known. -/
def exportPiece (bundlesDirectory pieceId authorId : String) (piece : Piece) :
    ExportProgram ExportedBundle := do
  let s ← get
  let annotations := s.device.annotationsFor pieceId
  modify fun s => s.onDevice fun d => d.cacheAnnotations pieceId annotations
  awaitCall .snapshot
  let layer := exportedLayer annotations piece authorId
  let authorNotes := annotations.notesBy authorId
  let (audioEntries, withAudio) ← packAudio authorNotes []
  let (pdfFilename, withPdf) ← packBasePdf pieceId piece withAudio
  finishExport bundlesDirectory pieceId authorId piece layer authorNotes s.edits.applied.length
    audioEntries pdfFilename withPdf

def exportBundle (bundlesDirectory pieceId : String) (authorId : Option String) :
    ExportProgram ExportedBundle := do
  let s ← get
  let resolvedAuthorId := authorId.getD s.currentUserId
  let piece ← requirePiece pieceId
  exportPiece bundlesDirectory pieceId resolvedAuthorId piece

end Exporting

/-! ## Runs -/

/-- The device, and the exports that run. -/
abbrev ReviewExports :=
  Lib.Isolate (Option String) ExportAwait ExportReply Exporting Failure ExportedBundle

/-- What can happen at some moment: the author makes an edit; an edit goes on; somebody signs in; an
export is called, for the author; or it is resumed. -/
inductive ExportEvent where
  | edit (call : AnnotationCall)
  | roleResolved (id : Nat) (role : PieceRole)
  | stored (id : Nat) (error : Option Failure)
  | signIn (userId : String) (userName : Option String)
  | exportBundle (authorId : Option String)
  | resume (i : Nat) (reply : ExportReply)
  deriving DecidableEq

/-- A piece, the author whose slice is edited and exported, and where the bundles go. -/
structure ReviewSlice where
  pieceId : String
  author : String
  bundlesDirectory : String
  deriving DecidableEq, Repr

namespace ReviewExports

/-- The exports, and a new state of the edits. -/
def withEdits (s : ReviewExports) (edits : Isolate) : ReviewExports :=
  { s with state := { s.state with edits } }

/-- The clock shows `now`. -/
def setClock (s : ReviewExports) (now : DateTime) : ReviewExports :=
  { s with state := { s.state with clock := now } }

section

variable (slice : ReviewSlice)

/-- What happens when the clock shows `now`. -/
def happen (s : ReviewExports) (now : DateTime) : ExportEvent → Option ReviewExports
  | .edit call =>
    if call.isEdit ∧ s.state.currentUserId = slice.author then
      (s.state.edits.step slice.pieceId (.call slice.author now call)).map (withEdits s)
    else none
  | .roleResolved id role =>
    (s.state.edits.step slice.pieceId (.roleResolved id role)).map (withEdits s)
  | .stored id error => (s.state.edits.step slice.pieceId (.stored id error)).map (withEdits s)
  | .signIn currentUserId currentUserName =>
    some { s with state := { s.state with currentUserId, currentUserName } }
  | .exportBundle authorId =>
    if authorId.getD s.state.currentUserId = slice.author then
      Lib.Isolate.step (Exporting.exportBundle slice.bundlesDirectory slice.pieceId) id s
        (.call authorId)
    else none
  | .resume i reply =>
    Lib.Isolate.step (Exporting.exportBundle slice.bundlesDirectory slice.pieceId) id s
      (.resume i reply)

/-- One event, later than all before it. -/
def step (s : ReviewExports) (e : DateTime × ExportEvent) : Option ReviewExports :=
  if s.state.clock.micros < e.1.micros then happen slice (setClock s e.1) e.1 e.2
  else none

/-- How many edits had been written when an export took its snapshot, for each export that runs: it
takes it when it first goes on. -/
def noteSnapshots (taken : List (Option Nat)) (s : ReviewExports) (e : DateTime × ExportEvent)
    (t : ReviewExports) : List (Option Nat) :=
  match e.2 with
  | .exportBundle _ => Lib.Isolate.annotate taken none t
  | .resume i _ =>
    let writes := (taken[i]?.getD none).getD s.state.edits.applied.length
    Lib.Isolate.annotate (taken.eraseIdx i) (some writes) t
  | _ => taken

/-- An export that still packs its files does not go on after another one has been stamped that took
its snapshot after further edits, unless in the same millisecond. -/
def InOrder (s : ReviewExports × List (Option Nat)) (e : DateTime × ExportEvent) : Prop :=
  match e.2 with
  | .resume i (.ok _) => ∀ task ∈ s.1.running[i]?, ∀ point ∈ task.rest.point?, point.packs = true →
      ∀ taken ∈ s.2[i]?, ∀ writes ∈ taken, ∀ other ∈ s.1.state.stamped, writes < other.writes →
        e.1.millisecondsSinceEpoch = other.millis
  | _ => True

instance (s : ReviewExports × List (Option Nat)) (e : DateTime × ExportEvent) :
    Decidable (InOrder s e) := by
  unfold InOrder
  split <;> infer_instance

end

/-- Whatever edit is in the snapshot of an export had been written before the snapshot of every
export with a greater stamp. -/
def NewestWins (s : ReviewExports) : Prop :=
  ∀ a ∈ s.state.stamped, ∀ b ∈ s.state.stamped, a.millis < b.millis →
    ∀ edit, a.Contains edit → b.Contains edit

/-- Nothing has been exported from the device. -/
def start (d : Device) (userId : String) (userName : Option String) (now : DateTime) :
    ReviewExports :=
  Lib.Isolate.start ⟨Isolate.start d, userId, userName, now, []⟩

end ReviewExports

/-! ## What an export does between its awaits -/

namespace Exporting

/-- What an export that is packing its files goes on with: what it has awaited is there. -/
def Packing (from? : Option (ExportAwait × ExportReply)) : Prop :=
  ∃ point : ExportAwait, from? = some (point, .ok ()) ∧ point.packs = true

/-- A segment that neither reads the clock nor stamps the export; where it hands on, it has come from
where `goesOn` says. -/
def Quiet {α : Type} (goesOn : Option (ExportAwait × ExportReply) → Prop)
    (from? : Option (ExportAwait × ExportReply)) (s₀ : Exporting) (stop : Stop ExportAwait Failure α)
    (s : Exporting) : Prop :=
  (s.clock = s₀.clock ∧ s.stamped = s₀.stamped) ∧ ∀ a, stop = .ends (.ok a) → goesOn from?

/-- A segment that stamps the export at most once, while it is packing, with the present time. -/
def Stamps {α : Type} (writes : Nat) (from? : Option (ExportAwait × ExportReply)) (s₀ : Exporting)
    (_ : Stop ExportAwait Failure α) (s : Exporting) : Prop :=
  s.clock = s₀.clock ∧
    (s.stamped = s₀.stamped ∨ Packing from? ∧ s.stamped = (s₀.stamp writes).stamped)

section

variable {α β : Type} {goesOn : Option (ExportAwait × ExportReply) → Prop}
  {from? : Option (ExportAwait × ExportReply)} {s₀ s : Exporting} {writes : Nat}

theorem Quiet.stamps {stop : Stop ExportAwait Failure α} (h : Quiet goesOn from? s₀ stop s) :
    Stamps writes from? s₀ stop s :=
  ⟨h.1.1, .inl h.1.2⟩

theorem stamps_quiet {stop : Stop ExportAwait Failure α}
    (h : s.clock = s₀.clock ∧ s.stamped = s₀.stamped) : Stamps writes from? s₀ stop s :=
  ⟨h.1, .inl h.2⟩

theorem followsOn_awaitCall {point : ExportAwait} (h : s.clock = s₀.clock ∧ s.stamped = s₀.stamped)
    (hpoint : goesOn (some (point, .ok ()))) :
    (awaitCall point).FollowsOn (Quiet goesOn) from? s₀ s := by
  refine ⟨⟨h, nofun⟩, fun t reply => ?_⟩
  cases reply with
  | error e => exact ⟨⟨rfl, rfl⟩, nofun⟩
  | ok done => exact ⟨⟨rfl, rfl⟩, fun _ _ => hpoint⟩

theorem followsOn_pack {point : ExportAwait} (h : s.clock = s₀.clock ∧ s.stamped = s₀.stamped)
    (hpoint : point.packs = true) : (awaitCall point).FollowsOn (Quiet Packing) from? s₀ s :=
  followsOn_awaitCall h ⟨point, rfl, hpoint⟩

theorem followsOn_call (point : ExportAwait) (h : s.clock = s₀.clock ∧ s.stamped = s₀.stamped) :
    (awaitCall point).FollowsOn (Quiet fun _ => True) from? s₀ s :=
  followsOn_awaitCall h trivial

/-- A quiet part of an export, and the rest. -/
theorem followsOn_quiet_bind
    {seg : Option (ExportAwait × ExportReply) → Exporting → Stop ExportAwait Failure β →
      Exporting → Prop}
    {p : ExportProgram α} {f : α → ExportProgram β} (hp : p.FollowsOn (Quiet goesOn) from? s₀ s)
    (hseg : ∀ {from? s₀ stop s}, Quiet (fun _ => False) from? s₀ stop s → seg from? s₀ stop s)
    (hf : ∀ {from? : Option (ExportAwait × ExportReply)} {s₀ s : Exporting} (a : α),
      s.clock = s₀.clock ∧ s.stamped = s₀.stamped → goesOn from? → (f a).FollowsOn seg from? s₀ s) :
    (p >>= f).FollowsOn seg from? s₀ s := by
  refine followsOn_bind.mpr (hp.mono fun from? s₀ stop s h => ?_)
  cases stop with
  | waits point => exact hseg ⟨h.1, nofun⟩
  | ends outcome =>
    cases outcome with
    | ok a => exact hf a h.1 (h.2 a rfl)
    | error e => exact hseg ⟨h.1, nofun⟩

/-- Quiet parts after one another. -/
theorem Quiet.of_waits {stop : Stop ExportAwait Failure α}
    (h : Quiet (fun _ => False) from? s₀ stop s) : Quiet goesOn from? s₀ stop s :=
  ⟨h.1, fun a ha => (h.2 a ha).elim⟩

theorem followsOn_packAudio (notes : List AudioNote) (archive : Archive)
    (h : s.clock = s₀.clock ∧ s.stamped = s₀.stamped) (hfrom : Packing from?) :
    (packAudio notes archive).FollowsOn (Quiet Packing) from? s₀ s := by
  induction notes generalizing archive from? s₀ s with
  | nil => exact ⟨h, fun _ _ => hfrom⟩
  | cons note rest ih =>
    rw [packAudio]
    split_ifs
    · exact followsOn_quiet_bind (ih archive h hfrom) Quiet.of_waits fun _ h hfrom =>
        ⟨h, fun _ _ => hfrom⟩
    · refine ⟨⟨h, nofun⟩, fun t reply => ?_⟩
      refine followsOn_get_bind.mpr ?_
      dsimp only
      split
      · exact ⟨⟨rfl, rfl⟩, nofun⟩
      · exact followsOn_quiet_bind (followsOn_pack ⟨rfl, rfl⟩ rfl) Quiet.of_waits
          fun _ h hfrom => followsOn_quiet_bind (ih _ h hfrom) Quiet.of_waits fun _ h hfrom =>
            ⟨h, fun _ _ => hfrom⟩

theorem followsOn_packBasePdf (pieceId : String) (piece : Piece) (archive : Archive)
    (h : s.clock = s₀.clock ∧ s.stamped = s₀.stamped) (hfrom : Packing from?) :
    (packBasePdf pieceId piece archive).FollowsOn (Quiet Packing) from? s₀ s := by
  rw [packBasePdf, followsOn_get_bind]
  split
  · split_ifs
    · exact followsOn_quiet_bind (followsOn_pack h rfl) Quiet.of_waits fun _ h hfrom =>
        ⟨h, fun _ _ => hfrom⟩
    · exact ⟨h, fun _ _ => hfrom⟩
  · exact ⟨h, fun _ _ => hfrom⟩

theorem followsOn_setBaseShared (pieceId : String) (pdfFilename : Option String)
    (h : s.clock = s₀.clock ∧ s.stamped = s₀.stamped) :
    (setBaseShared pieceId pdfFilename).FollowsOn (Quiet fun _ => True) from? s₀ s := by
  cases pdfFilename with
  | none => exact ⟨h, fun _ _ => trivial⟩
  | some filename =>
    exact followsOn_quiet_bind (followsOn_call .markShared h)
      Quiet.of_waits fun _ h _ => ⟨h, fun _ _ => trivial⟩

/-- An export is stamped where its files have been packed. -/
theorem followsOn_finishExport {bundlesDirectory pieceId authorId : String} {piece : Piece}
    {layer : InkLayer} {authorNotes : List AudioNote} {audioEntries : List ManifestAudioEntry}
    {pdfFilename : Option String} {packed : Archive}
    (h : s.clock = s₀.clock ∧ s.stamped = s₀.stamped) (hfrom : Packing from?) :
    (finishExport bundlesDirectory pieceId authorId piece layer authorNotes writes audioEntries
      pdfFilename packed).FollowsOn (Stamps writes) from? s₀ s := by
  rw [finishExport, followsOn_get_bind]
  dsimp only
  rw [followsOn_modify_bind]
  refine ⟨⟨h.1, .inr ⟨hfrom, ?_⟩⟩, fun t reply => ?_⟩
  · simp [stamp, h.1, h.2]
  · cases reply with
    | error e => exact stamps_quiet ⟨rfl, rfl⟩
    | ok done =>
      change (awaitCall .writeBundle >>= _).FollowsOn (Stamps writes) _ t t
      exact followsOn_quiet_bind (followsOn_call .writeBundle ⟨rfl, rfl⟩) Quiet.stamps
        fun _ h _ => followsOn_quiet_bind (followsOn_setBaseShared _ _ h) Quiet.stamps
          fun _ h _ => stamps_quiet h

/-- An export takes its snapshot when it has got the piece: from there on it is stamped, if at all,
with the edits that had been written then. -/
theorem followsOn_exportPiece (bundlesDirectory pieceId authorId : String) (piece : Piece) :
    (exportPiece bundlesDirectory pieceId authorId piece).FollowsOn
      (Stamps s.edits.applied.length) from? s s := by
  rw [exportPiece, followsOn_get_bind]
  dsimp only
  rw [followsOn_modify_bind]
  exact followsOn_quiet_bind (followsOn_pack ⟨rfl, rfl⟩ rfl) Quiet.stamps fun _ h hfrom =>
    followsOn_quiet_bind (followsOn_packAudio _ _ h hfrom) Quiet.stamps fun _ h hfrom =>
      followsOn_quiet_bind (followsOn_packBasePdf _ _ _ h hfrom) Quiet.stamps fun _ h hfrom =>
        followsOn_finishExport h hfrom

end

/-- A call that waits is stamped, if at all, with the edits that are noted of it; before its
snapshot, where nothing is noted, with those that have been written when it goes on. -/
def Carries {α : Type} (p : ExportProgram α) (taken : Option Nat) : Prop :=
  ∀ point k, p = .await point k → (taken = none → point.packs = false) ∧ ∀ t reply,
    (k reply).FollowsOn (Stamps (taken.getD t.edits.applied.length)) (some (point, reply)) t t

theorem carries_exportBundle (bundlesDirectory pieceId : String) (authorId : Option String)
    (s : Exporting) : ∃ left, (exportBundle bundlesDirectory pieceId authorId).resume s = (left, s) ∧
      Carries left none := by
  refine ⟨_, rfl, fun point k heq => ?_⟩
  obtain ⟨rfl, rfl⟩ := Async.await.inj heq
  refine ⟨fun _ => rfl, fun t reply => ?_⟩
  dsimp only [Async.bind]
  split
  · exact stamps_quiet ⟨rfl, rfl⟩
  · exact followsOn_exportPiece bundlesDirectory pieceId _ _

/-! ### An export alone -/

/-- Whom the state says to be signed in and what its clock shows, a call is told. -/
structure Surrounds (env : Env) (s : Exporting) : Prop where
  userId : s.currentUserId = env.currentUserId
  userName : s.currentUserName = env.currentUserName
  clock : s.clock = env.clock .exportManifest

/-- From `s`, the program alone does on the device what the action does. -/
def Mirrors {α : Type} (env : Env) (s : Exporting) (p : ExportProgram α) (q : Action α) : Prop :=
  (p.alone (.ok ()) s).1 = (q.exec s.device).1 ∧
    (p.alone (.ok ()) s).2.device = (q.exec s.device).2 ∧
    (p.alone (.ok ()) s).2.Surrounds env

section

variable {α β : Type} {env : Env} {s : Exporting} {p : ExportProgram α} {q : Action α}

theorem Mirrors.done (a : α) (h : s.Surrounds env) : Mirrors env s (done a) (pure a) :=
  ⟨rfl, rfl, h⟩

theorem Mirrors.fail (e : Failure) (h : s.Surrounds env) :
    Mirrors env s (fail e : ExportProgram α) (Effect.fail e) :=
  ⟨rfl, rfl, h⟩

theorem Mirrors.bind {f : α → ExportProgram β} {g : α → Action β} (h : Mirrors env s p q)
    (hf : ∀ {t : Exporting} (a : α), t.Surrounds env → Mirrors env t (f a) (g a)) :
    Mirrors env s (p >>= f) (q >>= g) := by
  obtain ⟨houtcome, hdevice, henv⟩ := h
  rcases hp : p.alone (.ok ()) s with ⟨e | a, t⟩
  · simp only [hp] at houtcome hdevice henv
    have hq : q.exec s.device = (.error e, t.device) := by rw [houtcome, hdevice]
    simpa [Mirrors, alone_bind, hp, Effect.exec_bind, hq] using henv
  · simp only [hp] at houtcome hdevice henv
    have hq : q.exec s.device = (.ok a, t.device) := by rw [houtcome, hdevice]
    simpa [Mirrors, alone_bind, hp, Effect.exec_bind, hq] using hf a henv

/-- A program and an action go on as others do. -/
theorem Mirrors.of_eq {p' : ExportProgram α} {q' : Action α} (h : Mirrors env s p' q')
    (hp : p.alone (.ok ()) s = p'.alone (.ok ()) s) (hq : q.exec s.device = q'.exec s.device) :
    Mirrors env s p q := by
  rwa [Mirrors, hp, hq]

theorem mirrors_onDevice {f : Device → Device} (h : s.Surrounds env) :
    Mirrors env s (Async.modify fun s => s.onDevice f) (Effect.modify f) :=
  ⟨rfl, rfl, h.userId, h.userName, h.clock⟩

variable (hquiet : ∀ step, env.fails step = false)

include hquiet

theorem mirrors_awaitCall {point : ExportAwait} {step : Step} (h : s.Surrounds env) :
    Mirrors env s (awaitCall point) (env.await step) := by
  simpa [Mirrors, awaitCall, Env.await, hquiet] using h

theorem mirrors_packAudio (i : Nat) (notes : List AudioNote) (archive : Archive)
    (h : s.Surrounds env) :
    Mirrors env s (packAudio notes archive) (Duet.packAudio env i notes archive) := by
  induction notes generalizing i archive s with
  | nil => exact .done _ h
  | cons note rest ih =>
    rw [packAudio, Duet.packAudio]
    split_ifs
    · exact (ih _ _ h).bind fun _ h => .done _ h
    · cases hasset : s.device.audioAssets.get note.audioAssetId with
      | none =>
        refine ⟨?_, ?_, ?_⟩ <;> simp [audioFileFor, hasset, Effect.orFail, Except.bind, h]
      | some asset =>
        let fileName := note.id ++ asset.extension
        let withNote := archive.addFile ⟨"audio/" ++ fileName, asset.content⟩
        have hread : Mirrors env s (awaitCall .readAudio) (env.await (.readAudio i)) :=
          mirrors_awaitCall hquiet h
        have hrest : Mirrors env s
            (awaitCall .readAudio >>= fun _ => packAudio rest withNote >>= fun r =>
              done (⟨note, some fileName⟩ :: r.1, r.2))
            (env.await (.readAudio i) >>= fun _ => Duet.packAudio env (i + 1) rest withNote >>=
              fun r => pure (⟨note, some fileName⟩ :: r.1, r.2)) :=
          hread.bind fun _ h => (ih _ _ h).bind fun _ h => .done _ h
        refine hrest.of_eq ?_ ?_
        · simp [hasset, Except.bind, withNote, fileName]
        · simp [audioFileFor, hasset, withNote, fileName]

theorem mirrors_packBasePdf (pieceId : String) (piece : Piece) (archive : Archive)
    (h : s.Surrounds env) :
    Mirrors env s (packBasePdf pieceId piece archive)
      (Duet.packBasePdf env pieceId piece archive) := by
  cases hfile : s.device.files.get piece.basePdfPath with
  | none => refine ⟨?_, ?_, ?_⟩ <;> simp [packBasePdf, Duet.packBasePdf, hfile, h]
  | some content =>
    by_cases hshared : s.device.storage.baseShared.get pieceId = some true
    · refine ⟨?_, ?_, ?_⟩ <;> simp [packBasePdf, Duet.packBasePdf, hfile, hshared, h]
    · have hread : Mirrors env s (awaitCall .readPdf) (env.await .readPdf) :=
        mirrors_awaitCall hquiet h
      let pdfFilename := Path.basename piece.basePdfPath
      have hrest : Mirrors env s
          (awaitCall .readPdf >>= fun _ =>
            done (some pdfFilename, archive.addFile ⟨"pdf/" ++ pdfFilename, content⟩))
          (env.await .readPdf >>= fun _ =>
            pure (some pdfFilename, archive.addFile ⟨"pdf/" ++ pdfFilename, content⟩)) :=
        hread.bind fun _ h => .done _ h
      refine hrest.of_eq ?_ ?_
      · simp [packBasePdf, hfile, hshared, pdfFilename]
      · simp [Duet.packBasePdf, hfile, hshared, pdfFilename]

theorem mirrors_setBaseShared (pieceId : String) (pdfFilename : Option String)
    (h : s.Surrounds env) :
    Mirrors env s (setBaseShared pieceId pdfFilename)
      (Duet.setBaseShared env pieceId pdfFilename) := by
  cases pdfFilename with
  | none => exact .done _ h
  | some filename => exact (mirrors_awaitCall hquiet h).bind fun _ h => mirrors_onDevice h

theorem mirrors_finishExport {pieceId authorId : String} {piece : Piece} {layer : InkLayer}
    {authorNotes : List AudioNote} {writes : Nat} {audioEntries : List ManifestAudioEntry}
    {pdfFilename : Option String} {packed : Archive} (h : s.Surrounds env) :
    let now := env.clock .exportManifest
    let manifest : ReviewManifest := ⟨1, pieceId, piece.title, authorId,
      if authorId = env.currentUserId then env.currentUserName else none,
      now.millisecondsSinceEpoch, piece.basePdfChecksum, pdfFilename, layer.strokes, audioEntries⟩
    Mirrors env s
      (finishExport env.bundlesDirectory pieceId authorId piece layer authorNotes writes
        audioEntries pdfFilename packed)
      (env.await .bundlesDirectory >>= fun _ => env.await .writeBundle >>= fun _ =>
        Duet.setBaseShared env pieceId pdfFilename >>= fun _ => pure ⟨pieceId,
          Path.join env.bundlesDirectory
            s!"duet_{pieceId}_{authorId}_{now.millisecondsSinceEpoch}.duet",
          ⟨piece.title, layer.strokes.length,
            (authorNotes.filter fun n => !n.isTombstoned).length, now⟩,
          packed.addFile ⟨"manifest.json", .json manifest.toJson⟩⟩) := by
  intro now manifest
  have hstamped : (s.stamp writes).Surrounds env := ⟨h.userId, h.userName, h.clock⟩
  rw [Mirrors, finishExport, alone_get_bind, h.clock, h.userId, h.userName]
  dsimp only
  rw [alone_modify_bind]
  exact (mirrors_awaitCall hquiet hstamped).bind fun _ h => (mirrors_awaitCall hquiet h).bind
    fun _ h => (mirrors_setBaseShared hquiet pieceId pdfFilename h).bind fun _ h => .done _ h

/-- An export that nothing overtakes does what the service's operation does. -/
theorem alone_exportBundle (pieceId : String) (authorId : Option String) (h : s.Surrounds env) :
    Mirrors env s (exportBundle env.bundlesDirectory pieceId authorId)
      (Duet.exportBundle env pieceId authorId) := by
  have hrequire : (requirePiece pieceId).alone (.ok ()) s =
      match s.device.getPiece pieceId with
      | .error e => (.error (.reviewSyncCaused s!"Unknown piece: {pieceId} " e), s)
      | .ok piece => (.ok piece, s) := by
    change Async.alone _ (match s.device.getPiece pieceId with
      | .error e => _
      | .ok piece => _) s = _
    cases s.device.getPiece pieceId <;> rfl
  rw [Mirrors, exportBundle, Duet.exportBundle, alone_get_bind, Effect.exec_get_bind, alone_bind,
    hrequire]
  cases hpiece : s.device.getPiece pieceId with
  | error e => exact ⟨rfl, rfl, h⟩
  | ok piece =>
    let cached := s.device.cacheAnnotations pieceId (s.device.annotationsFor pieceId)
    have hcached : (s.onDevice fun _ => cached).Surrounds env := ⟨h.userId, h.userName, h.clock⟩
    dsimp only
    rw [Effect.exec_bind_of_ok (exec_loadAnnotations pieceId s.device), h.userId]
    exact (mirrors_packAudio hquiet 0 _ _ hcached).bind fun _ h =>
      (mirrors_packBasePdf hquiet pieceId piece _ h).bind fun _ h => mirrors_finishExport hquiet h

end

end Exporting

/-! ## Stamps -/

theorem DateTime.millisecondsSinceEpoch_le {t u : DateTime} (h : t.micros < u.micros) :
    t.millisecondsSinceEpoch ≤ u.millisecondsSinceEpoch :=
  Int.tdiv_le_tdiv (by decide) (Int.le_of_lt h)

namespace ReviewExports

section

variable {slice : ReviewSlice} {s t : ReviewExports} {now : DateTime} {e : ExportEvent}

/-- The exports that run carry what is noted of them, and no stamp is later than the clock. -/
structure Inv (s : ReviewExports) (taken : List (Option Nat)) : Prop where
  carries : List.Forall₂ (fun task taken => Exporting.Carries task.rest taken) s.running taken
  stamped : ∀ stamp ∈ s.state.stamped, stamp.millis ≤ s.state.clock.millisecondsSinceEpoch
  newestWins : s.NewestWins

theorem inv_start (d : Device) (userId : String) (userName : Option String) (now : DateTime) :
    Inv (start d userId userName now) [] where
  carries := .nil
  stamped := nofun
  newestWins := nofun

/-- An export that goes on is stamped with the edits that are noted of it, or not at all. -/
theorem resume_stamped {i : Nat} {reply : ExportReply} {taken : List (Option Nat)}
    (h : List.Forall₂ (fun task taken => Exporting.Carries task.rest taken) s.running taken)
    (hstep : Lib.Isolate.step (Exporting.exportBundle slice.bundlesDirectory slice.pieceId) id s
      (.resume i reply) = some t) :
    List.Forall₂ (fun task taken => Exporting.Carries task.rest taken) t.running
        (noteSnapshots taken s (now, .resume i reply) t) ∧
      t.state.clock = s.state.clock ∧ (t.state.stamped = s.state.stamped ∨
        ∃ task point writes, s.running[i]? = some task ∧ task.rest.point? = some point ∧
          point.packs = true ∧ taken[i]? = some (some writes) ∧ reply = .ok () ∧
            t.state.stamped = (s.state.stamp writes).stamped) := by
  obtain ⟨authorId, point, k, hrunning, rfl⟩ := Lib.Isolate.resume_step.mp hstep
  obtain ⟨noted, hnoted, hcarries⟩ := Lib.Isolate.forall₂_getElem? h hrunning
  obtain ⟨hfirst, hfollows⟩ := hcarries point k rfl
  obtain ⟨stop, -, ⟨hclock, hstamped⟩, hrest⟩ := (hfollows s.state reply).resume
  refine ⟨?_, by rwa [Lib.Isolate.state_settle], ?_⟩
  · simp only [noteSnapshots, hnoted, Option.getD_some]
    exact Lib.Isolate.forall₂_settle (Lib.Isolate.forall₂_eraseIdx h i) fun _ point k heq =>
      ⟨nofun, hrest point k heq⟩
  · rw [Lib.Isolate.state_settle]
    refine hstamped.imp_right fun ⟨hpacking, hnew⟩ => ?_
    obtain ⟨point', hfrom, hpacks⟩ := hpacking
    obtain ⟨rfl, rfl⟩ := Prod.mk.inj (Option.some.inj hfrom)
    cases noted with
    | none => exact absurd hpacks (by simp [hfirst rfl])
    | some writes => exact ⟨_, point, writes, hrunning, rfl, hpacks, hnoted, rfl, hnew⟩

/-- What an event does to the stamps, once the clock has been set. -/
theorem happen_stamped {taken : List (Option Nat)}
    (h : List.Forall₂ (fun task taken => Exporting.Carries task.rest taken) s.running taken)
    (hstep : happen slice s now e = some t) :
    List.Forall₂ (fun task taken => Exporting.Carries task.rest taken) t.running
        (noteSnapshots taken s (now, e) t) ∧
      t.state.clock = s.state.clock ∧ (t.state.stamped = s.state.stamped ∨
        ∃ i task point writes, e = .resume i (.ok ()) ∧ s.running[i]? = some task ∧
          task.rest.point? = some point ∧ point.packs = true ∧ taken[i]? = some (some writes) ∧
            t.state.stamped = (s.state.stamp writes).stamped) := by
  cases e with
  | edit call =>
    rw [happen] at hstep
    split_ifs at hstep
    obtain ⟨edits, -, rfl⟩ := Option.map_eq_some_iff.mp hstep
    exact ⟨h, rfl, .inl rfl⟩
  | roleResolved id role =>
    obtain ⟨edits, -, rfl⟩ := Option.map_eq_some_iff.mp hstep
    exact ⟨h, rfl, .inl rfl⟩
  | stored id error =>
    obtain ⟨edits, -, rfl⟩ := Option.map_eq_some_iff.mp hstep
    exact ⟨h, rfl, .inl rfl⟩
  | signIn userId userName =>
    obtain rfl := Option.some.inj hstep
    exact ⟨h, rfl, .inl rfl⟩
  | exportBundle authorId =>
    rw [happen] at hstep
    split_ifs at hstep
    obtain rfl := Lib.Isolate.call_step.mp hstep
    obtain ⟨left, hleft, hcarries⟩ := Exporting.carries_exportBundle slice.bundlesDirectory
      slice.pieceId authorId s.state
    rw [hleft]
    refine ⟨?_, by rw [Lib.Isolate.state_settle], .inl (by rw [Lib.Isolate.state_settle])⟩
    exact Lib.Isolate.forall₂_settle h fun _ => hcarries
  | resume i reply =>
    rw [happen] at hstep
    obtain ⟨hcarries, hclock, hstamped⟩ := resume_stamped h hstep
    refine ⟨hcarries, hclock, hstamped.imp_right ?_⟩
    rintro ⟨task, point, writes, htask, hpoint, hpacks, htaken, rfl, hnew⟩
    exact ⟨i, task, point, writes, rfl, htask, hpoint, hpacks, htaken, hnew⟩

/-- A further stamp, the latest, of a snapshot that has every edit of those with a smaller one. -/
theorem NewestWins.stamp {writes : Nat} {millis : Int} (h : s.NewestWins)
    (hlatest : ∀ stamp ∈ s.state.stamped, stamp.millis ≤ millis)
    (hnot : ∀ other ∈ s.state.stamped, writes < other.writes → millis = other.millis)
    (ht : t.state.stamped = s.state.stamped ++ [⟨writes, millis⟩]) : t.NewestWins := by
  intro a ha b hb hlt edit hedit
  rw [ht] at ha hb
  obtain ha | ha := List.mem_append.mp ha
  · obtain hb | hb := List.mem_append.mp hb
    · exact h a ha b hb hlt edit hedit
    · obtain rfl := List.mem_singleton.mp hb
      by_contra hmissing
      have hmore : writes < a.writes := lt_of_le_of_lt (Nat.le_of_not_lt hmissing) hedit
      exact absurd hlt (hnot a ha hmore ▸ Int.lt_irrefl _)
  · obtain rfl := List.mem_singleton.mp ha
    obtain hb | hb := List.mem_append.mp hb
    · exact absurd (hlatest b hb) (Int.not_le.mpr hlt)
    · obtain rfl := List.mem_singleton.mp hb
      exact absurd hlt (Int.lt_irrefl _)

theorem inv_step {taken : List (Option Nat)} (h : s.Inv taken) (hin : InOrder (s, taken) (now, e))
    (hstep : step slice s (now, e) = some t) : t.Inv (noteSnapshots taken s (now, e) t) := by
  rw [step] at hstep
  split_ifs at hstep with hlater
  have hle := DateTime.millisecondsSinceEpoch_le hlater
  have hearlier : ∀ stamp ∈ s.state.stamped, stamp.millis ≤ now.millisecondsSinceEpoch :=
    fun stamp hstamp => Int.le_trans (h.stamped stamp hstamp) hle
  have hset : List.Forall₂ (fun task taken => Exporting.Carries task.rest taken)
      (setClock s now).running taken := h.carries
  obtain ⟨hcarries, hclock, hstamped⟩ := happen_stamped hset hstep
  have hnote : noteSnapshots taken (setClock s now) (now, e) t = noteSnapshots taken s (now, e) t :=
    rfl
  rw [hnote] at hcarries
  have hnow : t.state.clock = now := hclock
  obtain hsame | ⟨i, task, point, writes, rfl, htask, hpoint, hpacks, htaken, hnew⟩ := hstamped
  · have hsame : t.state.stamped = s.state.stamped := hsame
    refine ⟨hcarries, ?_, ?_⟩
    · rw [hsame, hnow]
      exact hearlier
    · rw [NewestWins, hsame]
      exact h.newestWins
  · have hnew : t.state.stamped = s.state.stamped ++ [⟨writes, now.millisecondsSinceEpoch⟩] := hnew
    refine ⟨hcarries, fun stamp hstamp => ?_, ?_⟩
    · rw [hnow]
      rw [hnew] at hstamp
      obtain hold | hnew := List.mem_append.mp hstamp
      · exact hearlier stamp hold
      · obtain rfl := List.mem_singleton.mp hnew
        exact Int.le_refl _
    · exact h.newestWins.stamp hearlier (hin task htask point hpoint hpacks _ htaken writes rfl) hnew

end

/-- The stamps of all exports of a slice order them by their edits, in every run in which no export
that still packs its files goes on after it has been overtaken by one that has further edits. -/
theorem newestWins_of_inOrder (slice : ReviewSlice) (d : Device) (userId : String)
    (userName : Option String) (now : DateTime) {events : List (DateTime × ExportEvent)}
    (h : EachStep (recorded (step slice) noteSnapshots) InOrder
      (start d userId userName now, []) events) :
    Always (step slice) NewestWins (start d userId userName now) events :=
  Always.of_recorded (I := Inv) (fun _ _ e _ hinv hin hstep => inv_step (e := e.2) hinv hin hstep)
    (fun _ _ hinv => hinv.newestWins) (inv_start d userId userName now) h

/-! ### A recording that is slow to read -/

/-- So many milliseconds after the epoch. -/
def moment (millis : Int) : DateTime := (DateTime.fromMillisecondsSinceEpoch millis).getD noon

/-- A note of `ann` on her sonata. -/
def slowNote : AudioNote := ⟨"n", "ann", "take", 0, 1000, ⟨0, 0, 0, 1, 1⟩, noon, none⟩

/-- A device with the sonata, the note and its recording. -/
def notedSonata : Device := { sonataDevice with
  annotationCache := [("p", ⟨"p", [], [slowNote]⟩)]
  audioAssets := [("take", ⟨".m4a", .bytes [1]⟩)] }

/-- `ann` exports her slice. While the recording is read she deletes the note and exports again; the
second export has nothing to read. -/
def exportsAcrossDelete : List (DateTime × ExportEvent) :=
  [(moment 1, .exportBundle none), (moment 2, .resume 0 (.ok ())), (moment 3, .resume 0 (.ok ())),
    (moment 4, .resume 0 (.ok ())), (moment 5, .edit (.deleteAudioNote "n")),
    (moment 6, .exportBundle none), (moment 7, .resume 1 (.ok ())), (moment 8, .resume 1 (.ok ())),
    (moment 9, .resume 0 (.ok ()))]

/-- The recording has been read before the second export takes its snapshot. -/
def exportsInTurn : List (DateTime × ExportEvent) :=
  [(moment 1, .exportBundle none), (moment 2, .resume 0 (.ok ())), (moment 3, .resume 0 (.ok ())),
    (moment 4, .resume 0 (.ok ())), (moment 5, .edit (.deleteAudioNote "n")),
    (moment 6, .exportBundle none), (moment 7, .resume 0 (.ok ())), (moment 8, .resume 0 (.ok ())),
    (moment 9, .resume 1 (.ok ())), (moment 10, .resume 0 (.ok ()))]

theorem newestWins_of_inOrder_exportsInTurn :
    Always (step ⟨"p", "ann", "/tmp"⟩) NewestWins (start notedSonata "ann" none (moment 0))
      exportsInTurn :=
  newestWins_of_inOrder ⟨"p", "ann", "/tmp"⟩ notedSonata "ann" none (moment 0) (by decide +kernel)

/-- The export that still has the note gets the greater stamp. -/
theorem not_newestWins :
    ¬∀ (slice : ReviewSlice) (d : Device) (userId : String) (userName : Option String)
      (now : DateTime) (events : List (DateTime × ExportEvent)),
      Always (step slice) NewestWins (start d userId userName now) events := by
  intro h
  have hstamped : (run (step ⟨"p", "ann", "/tmp"⟩) (start notedSonata "ann" none (moment 0))
      exportsAcrossDelete).map (·.state.stamped) = some [⟨1, 8⟩, ⟨0, 9⟩] := by decide +kernel
  obtain ⟨s, hrun, hs⟩ := Option.map_eq_some_iff.mp hstamped
  have hwins := (h _ _ _ _ _ exportsAcrossDelete).last hrun
  rw [NewestWins, hs] at hwins
  have hdelete := hwins ⟨1, 8⟩ (by simp) ⟨0, 9⟩ (by simp) (by decide) 0 Nat.one_pos
  exact absurd hdelete (Nat.lt_irrefl 0)

end ReviewExports

end Duet
