import Duet.Lib.Transition
import Duet.ReviewSync.Import

/-!
# Who owns a shared piece

Any number of devices edit their pieces and exchange bundles. A device that does not know a piece
takes the author of the bundle that embeds its PDF for the owner; which export embeds the PDF is
decided by a flag that every device keeps for itself.

## Main results

* `pieces_importBundle` — an import adds at most one piece, owned by the bundle's author.
* `Network.step_keepsOwner` — one step of the network keeps the owner and the bundles in line.
* `Network.owner_recorded` — the run lemma: while only the owner's exports embed the PDF, every
  device that holds the piece records its owner.
-/

namespace Duet

open Lib Effect

/-- An import leaves the pieces alone, or adds one: under the author of the bundle, which embeds
its PDF. -/
theorem pieces_importBundle (sha256 : Content → String) (env : Env) (bundle : Option Archive)
    (d : Device) :
    ((importBundle sha256 env bundle).exec d).2.pieces = d.pieces ∨
    ∃ archive manifest piece, opened? env bundle = some (archive, manifest) ∧
      d.findPiece manifest.pieceId = none ∧
      manifest.basePdfFilename ≠ none ∧ piece.id = manifest.pieceId ∧
      piece.ownerId = manifest.authorId ∧
      ((importBundle sha256 env bundle).exec d).2.pieces = d.pieces ++ [piece] := by
  rcases hopen : opened? env bundle with _ | ⟨archive, manifest⟩
  · obtain ⟨e, he⟩ := exec_importBundle_of_not_opened sha256 hopen d
    exact .inl (by rw [he])
  rw [exec_importBundle_of_opened hopen]
  rcases resolvePiece_cases sha256 env archive manifest d with
    ⟨piece, hfind, hsum, e, he⟩ | ⟨piece, hfind, hsum, hexec⟩ |
      ⟨hfind, hnone, e, files, he⟩ | ⟨hfind, piece, hpiece, hends⟩
  · exact .inl (by rw [exec_bind_of_error he])
  · exact .inl (by rw [exec_bind_of_ok hexec, pieces_applyUnlessStale])
  · exact .inl (by rw [exec_bind_of_error he])
  · have hregistered : manifest.basePdfFilename ≠ none ∧ piece.id = manifest.pieceId ∧
        piece.ownerId = manifest.authorId := by
      simp only [registeredPiece?, Option.bind_eq_bind, Option.bind_eq_some_iff] at hpiece
      obtain ⟨pdfFilename, hfilename, content, -, hpiece⟩ := hpiece
      split_ifs at hpiece
      obtain rfl := Option.some.inj hpiece
      exact ⟨by simp [hfilename], rfl, rfl⟩
    obtain ⟨hpdf, hid, howner⟩ := hregistered
    refine .inr ⟨archive, manifest, piece, rfl, hfind, hpdf, hid, howner, ?_⟩
    rcases hends with ⟨-, e, files, he⟩ | ⟨-, -, e, files, he⟩ | ⟨-, -, -, files, hexec⟩
    · rw [exec_bind_of_error he]
      rfl
    · rw [exec_bind_of_error he]
      rfl
    · rw [exec_bind_of_ok hexec, pieces_applyUnlessStale]
      rfl

/-! ## A network of devices -/

/-- The devices of a network and the bundles exported so far. -/
structure Network (ι : Type) where
  devices : ι → Device
  bundles : List Archive

/-- What happens on a device. An import takes any bundle exported so far. -/
inductive NetworkEvent (ι : Type) where
  | createPiece (device : ι) (env : Env) (title sourcePath : String) (ownerName : Option String)
  | edit (device : ι) (env : Env) (edit : Edit)
  | exportBundle (device : ι) (env : Env) (pieceId : String) (authorId : Option String)
  | importBundle (device : ι) (env : Env) (archive : Archive)

namespace Network

variable {ι : Type} [DecidableEq ι]

/-- The network with the state of one device replaced. -/
def update (net : Network ι) (device : ι) (d : Device) : Network ι :=
  { net with devices := Function.update net.devices device d }

/-- The bundle of an export that succeeds. -/
def exported (outcome : Except Failure ExportedBundle) : List Archive :=
  match outcome with
  | .ok bundle => [bundle.archive]
  | .error _ => []

/-- One step of the network. The piece `created` has been created before: no later `importPiece`
generates its id again. -/
def step (sha256 : Content → String) (created : String) (net : Network ι) :
    NetworkEvent ι → Option (Network ι)
  | .createPiece device env title sourcePath ownerName =>
    if pieceIdAt (env.clock .checksumPdf) (net.devices device).pieceSeq = created then none
    else some (net.update device
      ((importPiece sha256 env title sourcePath ownerName).exec (net.devices device)).2)
  | .edit device env edit => some (net.update device ((edit.perform env).exec (net.devices device)).2)
  | .exportBundle device env pieceId authorId =>
    let outcome := (Duet.exportBundle env pieceId authorId).exec (net.devices device)
    some { net.update device outcome.2 with bundles := net.bundles ++ exported outcome.1 }
  | .importBundle device env archive =>
    if archive ∈ net.bundles then
      some (net.update device
        ((Duet.importBundle sha256 env (some archive)).exec (net.devices device)).2)
    else none

/-- Every device that holds the piece records this owner. -/
def RecordsOwner (pieceId ownerId : String) (net : Network ι) : Prop :=
  ∀ device, ∀ piece ∈ (net.devices device).pieces, piece.id = pieceId → piece.ownerId = ownerId

/-- Every bundle that embeds the PDF of the piece is authored by its owner. -/
def OwnerEmbeds (pieceId ownerId : String) (net : Network ι) : Prop :=
  ∀ archive ∈ net.bundles, ∀ manifest, archive.manifest? = some manifest →
    manifest.pieceId = pieceId → manifest.basePdfFilename ≠ none → manifest.authorId = ownerId

/-- An export of the piece embeds its PDF only in the owner's name. -/
def OwnerExports (pieceId ownerId : String) (net : Network ι) : NetworkEvent ι → Prop
  | .exportBundle device env exportedId authorId =>
    ∀ piece, exportedId = pieceId → (net.devices device).findPiece pieceId = some piece →
      (net.devices device).EmbedsPdf pieceId piece → authorId.getD env.currentUserId = ownerId
  | _ => True

/-- A piece a device holds after one of its steps was there before or is new. -/
theorem recordsOwner_update {net : Network ι} {device : ι} {d : Device} {pieceId ownerId : String}
    (h : RecordsOwner pieceId ownerId net)
    (hd : ∀ piece ∈ d.pieces, piece ∈ (net.devices device).pieces ∨
      (piece.id = pieceId → piece.ownerId = ownerId)) :
    RecordsOwner pieceId ownerId (net.update device d) := by
  intro i piece hpiece hid
  by_cases hi : i = device
  · subst hi
    simp only [update, Function.update_self] at hpiece
    rcases hd piece hpiece with hold | hnew
    · exact h i piece hold hid
    · exact hnew hid
  · simp only [update, Function.update_of_ne hi] at hpiece
    exact h i piece hpiece hid

/-- What a successful export adds to the bundles embeds the PDF only as the device does. -/
theorem ownerEmbeds_exported {env : Env} {d : Device} {exportedId pieceId ownerId : String}
    {authorId : Option String}
    (h : ∀ piece, exportedId = pieceId → d.findPiece pieceId = some piece →
      d.EmbedsPdf pieceId piece → authorId.getD env.currentUserId = ownerId) :
    ∀ archive ∈ exported ((Duet.exportBundle env exportedId authorId).exec d).1,
      ∀ manifest, archive.manifest? = some manifest → manifest.pieceId = pieceId →
        manifest.basePdfFilename ≠ none → manifest.authorId = ownerId := by
  intro archive hmem manifest hmanifest hid hpdf
  rcases hexec : (Duet.exportBundle env exportedId authorId).exec d with ⟨e | bundle, d'⟩
  · simp [hexec, exported] at hmem
  · simp only [hexec, exported, List.mem_singleton] at hmem
    obtain ⟨piece, hfind, -, hpacked, -⟩ := exportBundle_ok hexec
    rw [hmem, hpacked] at hmanifest
    obtain rfl := Option.some.inj hmanifest
    change exportedId = pieceId at hid
    subst hid
    refine h piece rfl hfind ?_
    by_contra hembeds
    simp [ReviewManifest.transported, Device.manifestFor, hembeds] at hpdf

/-- One step keeps the owner on every device, and the bundles that embed the PDF in the owner's
name. -/
theorem step_keepsOwner {sha256 : Content → String} {pieceId ownerId : String}
    {net net' : Network ι} {event : NetworkEvent ι}
    (howner : RecordsOwner pieceId ownerId net) (hembeds : OwnerEmbeds pieceId ownerId net)
    (hcond : OwnerExports pieceId ownerId net event)
    (hstep : step sha256 pieceId net event = some net') :
    RecordsOwner pieceId ownerId net' ∧ OwnerEmbeds pieceId ownerId net' := by
  cases event with
  | createPiece device env title sourcePath ownerName =>
    simp only [step] at hstep
    split_ifs at hstep with hid
    obtain rfl := Option.some.inj hstep
    refine ⟨recordsOwner_update howner fun piece hpiece => ?_, hembeds⟩
    rcases pieces_importPiece _ _ _ _ _ _ piece hpiece with hold | ⟨hnew, -⟩
    · exact .inl hold
    · exact .inr fun h => absurd (hnew.symm.trans h) hid
  | edit device env edit =>
    obtain rfl := Option.some.inj hstep
    have hpieces : ((edit.perform env).exec (net.devices device)).2.pieces =
        (net.devices device).pieces := keeps_perform (fun d => d.pieces) env edit
      (fun _ _ _ => rfl) (fun _ _ _ => rfl) (net.devices device)
    exact ⟨recordsOwner_update howner fun piece hpiece => .inl (hpieces ▸ hpiece), hembeds⟩
  | exportBundle device env exportedId authorId =>
    obtain rfl := Option.some.inj hstep
    have hpieces : ((Duet.exportBundle env exportedId authorId).exec (net.devices device)).2.pieces =
        (net.devices device).pieces := keeps_exportBundle (fun d => d.pieces) env exportedId authorId
      (fun _ => rfl) (fun _ _ => rfl) (net.devices device)
    refine ⟨recordsOwner_update howner fun piece hpiece => .inl (hpieces ▸ hpiece), ?_⟩
    intro archive hmem
    rcases List.mem_append.mp hmem with hold | hnew
    · exact hembeds archive hold
    · exact ownerEmbeds_exported hcond archive hnew
  | importBundle device env archive =>
    simp only [step] at hstep
    split_ifs at hstep with hmem
    obtain rfl := Option.some.inj hstep
    refine ⟨recordsOwner_update howner fun piece hpiece => ?_, hembeds⟩
    rcases pieces_importBundle sha256 env (some archive) (net.devices device) with
      hsame | ⟨archive', manifest, new, hopen, -, hpdf, hid, howner', hadd⟩
    · exact .inl (hsame ▸ hpiece)
    · rw [hadd, List.mem_append, List.mem_singleton] at hpiece
      rcases hpiece with hold | rfl
      · exact .inl hold
      · obtain ⟨-, harchive, hmanifest⟩ := opened?_eq_some.mp hopen
        obtain rfl := Option.some.inj harchive
        exact .inr fun h => howner'.trans (hembeds _ hmem manifest hmanifest (hid.symm.trans h) hpdf)

/-- Once a device has created a piece, every device that holds it records its owner, in every state
of every run whose exports embed the PDF in the owner's name only. -/
theorem owner_recorded {sha256 : Content → String} {net net' : Network ι} {creator : ι} {env : Env}
    {title sourcePath : String} {ownerName : Option String} {piece : Piece} {d : Device}
    {events : List (NetworkEvent ι)}
    (hcreate : (importPiece sha256 env title sourcePath ownerName).exec (net.devices creator) =
      (.ok piece, d))
    (hunknown : ∀ device, ∀ held ∈ (net.devices device).pieces, held.id ≠ piece.id)
    (hunshared : ∀ archive ∈ net.bundles, ∀ manifest, archive.manifest? = some manifest →
      manifest.pieceId ≠ piece.id)
    (hcond : EachStep (step sha256 piece.id) (OwnerExports piece.id piece.ownerId)
      (net.update creator d) events)
    (hrun : run (step sha256 piece.id) (net.update creator d) events = some net') :
    RecordsOwner piece.id piece.ownerId net' := by
  have hinitial : RecordsOwner piece.id piece.ownerId (net.update creator d) := by
    refine recordsOwner_update (fun device held hheld hid => absurd hid (hunknown device held hheld))
      fun held hheld => ?_
    rw [(importPiece_ok sha256 env hcreate).1, List.mem_append, List.mem_singleton] at hheld
    rcases hheld with hold | rfl
    · exact .inl hold
    · exact .inr fun _ => rfl
  have hbundles : OwnerEmbeds piece.id piece.ownerId (net.update creator d) :=
    fun archive hmem manifest hmanifest hid => absurd hid (hunshared archive hmem manifest hmanifest)
  refine (run_invariant (I := fun net => RecordsOwner piece.id piece.ownerId net ∧
    OwnerEmbeds piece.id piece.ownerId net) ?_ ⟨hinitial, hbundles⟩ hcond hrun).1
  exact fun s e t hI hc ht => step_keepsOwner hI.1 hI.2 hc ht

/-! ## Three devices -/

/-- The devices of `ann`, `bob` and `carol`; `ann` has a PDF to import. -/
def threeDevices : Network (Fin 3) :=
  ⟨fun i => if i = 0 then { Device.fresh with files := [("/sonata.pdf", .bytes [1])] }
    else Device.fresh, []⟩

/-- The sonata as `ann` creates it. -/
def annsPiece : Piece :=
  ⟨"piece_43200000000_0", "Sonata", "sum", "/documents/pieces/piece_43200000000_0.pdf", "ann", none,
    [], noon, noon⟩

/-- The device of `ann` once she has created the sonata. -/
def annsDevice : Device :=
  ((importPiece (fun _ => "sum") (Env.quiet "ann" noon) "Sonata" "/sonata.pdf" none).exec
    (threeDevices.devices 0)).2

/-- The archives that `ann` exports first, and `bob` once he has imported hers. -/
def annsArchive : Archive :=
  match ((exportBundle (Env.quiet "ann" noon) annsPiece.id none).exec annsDevice).1 with
  | .ok bundle => bundle.archive
  | .error _ => []

def bobsArchive : Archive :=
  let imported := ((Duet.importBundle (fun _ => "sum") (Env.quiet "bob" noon)
    (some annsArchive)).exec Device.fresh).2
  match ((exportBundle (Env.quiet "bob" noon) annsPiece.id none).exec imported).1 with
  | .ok bundle => bundle.archive
  | .error _ => []

theorem annsPiece_created : (importPiece (fun _ => "sum") (Env.quiet "ann" noon) "Sonata"
    "/sonata.pdf" none).exec (threeDevices.devices 0) = (.ok annsPiece, annsDevice) :=
  Prod.ext (by decide) rfl

/-- `ann` shares the sonata with `bob`. -/
def annShares : List (NetworkEvent (Fin 3)) :=
  [.exportBundle 0 (Env.quiet "ann" noon) annsPiece.id none,
    .importBundle 1 (Env.quiet "bob" noon) annsArchive]

/-- `bob` shares it further. -/
def bobShares : List (NetworkEvent (Fin 3)) :=
  [.exportBundle 1 (Env.quiet "bob" noon) annsPiece.id none,
    .importBundle 2 (Env.quiet "carol" noon) bobsArchive]

theorem owner_recorded_annShares :
    ∃ net', run (step (fun _ => "sum") annsPiece.id) (threeDevices.update 0 annsDevice) annShares =
      some net' ∧ RecordsOwner annsPiece.id "ann" net' := by
  have hruns : (run (step (fun _ => "sum") annsPiece.id) (threeDevices.update 0 annsDevice)
      annShares).isSome = true := by decide +kernel
  obtain ⟨net', hrun⟩ := Option.isSome_iff_exists.mp hruns
  have hempty : ∀ device, (threeDevices.devices device).pieces = [] := by decide
  refine ⟨net', hrun, owner_recorded annsPiece_created ?_ ?_ ?_ hrun⟩
  · intro device held hheld
    simp [hempty device] at hheld
  · simp [threeDevices]
  · exact ⟨fun _ _ _ _ => rfl, fun _ _ => ⟨trivial, fun _ _ => trivial⟩⟩

/-- `bob`'s first export embeds the PDF as well, and `carol`'s device takes him for the owner. -/
theorem collaborator_recorded_as_owner :
    (importPiece (fun _ => "sum") (Env.quiet "ann" noon) "Sonata" "/sonata.pdf" none).exec
        (threeDevices.devices 0) = (.ok annsPiece, annsDevice) ∧
      ∃ net', run (step (fun _ => "sum") annsPiece.id) (threeDevices.update 0 annsDevice)
        (annShares ++ bobShares) = some net' ∧ ¬RecordsOwner annsPiece.id "ann" net' := by
  refine ⟨annsPiece_created, ?_⟩
  have hcarol : (run (step (fun _ => "sum") annsPiece.id) (threeDevices.update 0 annsDevice)
      (annShares ++ bobShares)).map (fun net =>
        (net.devices 2).pieces.map fun piece => (piece.id, piece.ownerId)) =
      some [(annsPiece.id, "bob")] := by decide +kernel
  obtain ⟨net', hrun, hpieces⟩ := Option.map_eq_some_iff.mp hcarol
  obtain ⟨piece, hheld, hpiece⟩ := List.map_eq_singleton_iff.mp hpieces
  obtain ⟨hid, howner⟩ := Prod.mk.inj hpiece
  refine ⟨net', hrun, fun h => ?_⟩
  have hann := h 2 piece (by simp [hheld]) hid
  exact absurd (howner.symm.trans hann) (by decide)

end Network

end Duet
