import Duet.Cloud.AnnotationRepository
import Duet.Device.AudioAssetStore
import Duet.Device.AudioUploadQueue
import Duet.Device.PieceRepository
import Duet.Lib.Fallible

/-!
# A signed-in client

A device that works against the cloud: what its local repositories still hold, the documents and
the base PDFs in the cloud, and the preferences of the cloud repositories. Its programs issue
operations on either side, and every operation may fail.

`selfCopy` is what copying a file onto itself leaves of its content; `sha256` is the checksum of a
file's content.

## Main definitions

* `Client` — the device, the documents and objects in the cloud, and the preferences.
* `ClientOperation`, `ClientOperation.perform` — what one awaited call does.
-/

namespace Duet

open Lib

/-- An object `pieces/<id>/base.pdf`: its bytes and its `checksum` metadata. -/
structure StoredPdf where
  content : Content
  checksum : String
  deriving DecidableEq, Repr

/-- `basePaths` is `pieces.cloudBasePaths`; `migrated` and `done` are `migration.pieces.migrated.`
and `migration.pieces.done.` followed by a uid; `audioSeq` is `CloudAudioAssetStore`'s counter. -/
structure Client where
  device : Device
  cloud : Cloud
  basePdfs : Assoc String StoredPdf
  basePaths : Assoc String String
  migrated : Assoc String (List String)
  done : Assoc String Bool
  uploadQueue : List AudioUploadTask
  audioSeq : Nat

/-- What a client's programs ask for. -/
inductive ClientOperation where
  | firestore (op : Operation)
  | now
  | newDocId
  | readBasePaths
  | writeBasePaths (paths : Assoc String String)
  | checksum (path : String)
  | copyFile (source dest : String)
  | storedPieces
  | watchAnnotations (pieceId : String)
  | localAudio (assetId : String)
  | nextAudioId
  | copyAudio (asset : AudioAsset) (id : String)
  | enqueueUpload (task : AudioUploadTask)
  | pdfChecksum (pieceId : String)
  | putPdf (pieceId localPath checksum : String)
  | readMigrated (uid : String)
  | writeMigrated (uid : String) (ids : List String)
  | readDone (uid : String)
  | writeDone (uid : String) (value : Bool)
  | confirm (pending : Nat)

/-- The response to an operation. -/
def ClientOperation.Response : ClientOperation → Type
  | firestore op => op.Response
  | now => DateTime
  | newDocId => String
  | readBasePaths => Assoc String String
  | checksum _ => String
  | storedPieces => List Piece
  | watchAnnotations _ => PieceAnnotations
  | localAudio _ => AudioAsset
  | nextAudioId => String
  | pdfChecksum _ => Option String
  | readMigrated _ => List String
  | readDone _ => Bool
  | confirm _ => Bool
  | writeBasePaths _ | copyFile _ _ | copyAudio _ _ | enqueueUpload _ | putPdf _ _ _
  | writeMigrated _ _ | writeDone _ _ => Unit

/-- A program of a client. -/
abbrev ClientProgram (α : Type) := Fallible ClientOperation ClientOperation.Response CloudFailure α

/-- What the device and its platform do on their own. -/
structure Platform where
  documentsDirectory : String
  sha256 : Content → String
  selfCopy : Content → Content

/-- What an operation is given from outside: the clock, a generated document id, the user's
answer. -/
structure Given where
  now : DateTime
  docId : String
  answer : Bool
  deriving DecidableEq, Repr

namespace Client

/-- The content of `dest` once `source` has been copied onto it. -/
def copyFile (platform : Platform) (client : Client) (source dest : String) (content : Content) :
    Client :=
  { client with device := { client.device with
    files := client.device.files.set dest
      (if source = dest then platform.selfCopy content else content) } }

/-- The ids recorded as migrated for a user. -/
def migratedIds (client : Client) (uid : String) : List String := (client.migrated.get uid).getD []

/-- `storage.getBool(doneKey) ?? false`. -/
def isDone (client : Client) (uid : String) : Bool := (client.done.get uid).getD false

end Client

/-- What an operation does when nothing fails. -/
def ClientOperation.perform (platform : Platform) (given : Given) :
    (o : ClientOperation) → Client → Except CloudFailure o.Response × Client
  | firestore op, client =>
    let (response, cloud) := op.perform client.cloud
    (response, { client with cloud := cloud })
  | now, client => (.ok given.now, client)
  | newDocId, client => (.ok given.docId, client)
  | readBasePaths, client => (.ok client.basePaths, client)
  | writeBasePaths paths, client => (.ok (), { client with basePaths := paths })
  | checksum path, client =>
    match client.device.files.get path with
    | none => (.error .unavailable, client)
    | some content => (.ok (platform.sha256 content), client)
  | copyFile source dest, client =>
    match client.device.files.get source with
    | none => (.error .unavailable, client)
    | some content => (.ok (), client.copyFile platform source dest content)
  | storedPieces, client => (.ok client.device.pieces, client)
  | watchAnnotations pieceId, client =>
    (.ok (client.device.annotationsFor pieceId).withoutTombstones, client)
  | localAudio assetId, client =>
    match client.device.audioAssets.get assetId with
    | none => (.error (.stateError s!"Unknown audio asset: {assetId}"), client)
    | some asset => (.ok asset, client)
  | nextAudioId, client =>
    (.ok (audioId given.now client.audioSeq), { client with audioSeq := client.audioSeq + 1 })
  | copyAudio asset id, client => (.ok (), { client with device := { client.device with
      audioAssets := client.device.audioAssets.set id asset } })
  | enqueueUpload task, client =>
    if client.uploadQueue.any fun t => t.assetId == task.assetId then (.ok (), client)
    else (.ok (), { client with uploadQueue := client.uploadQueue ++ [task] })
  | pdfChecksum pieceId, client => (.ok ((client.basePdfs.get pieceId).map (·.checksum)), client)
  | putPdf pieceId localPath sum, client =>
    match client.device.files.get localPath with
    | none => (.error .unavailable, client)
    | some content =>
      (.ok (), { client with basePdfs := client.basePdfs.set pieceId ⟨content, sum⟩ })
  | readMigrated uid, client => (.ok (client.migratedIds uid), client)
  | writeMigrated uid ids, client =>
    (.ok (), { client with migrated := client.migrated.set uid ids })
  | readDone uid, client => (.ok (client.isDone uid), client)
  | writeDone uid value, client => (.ok (), { client with done := client.done.set uid value })
  | confirm _, client => (.ok given.answer, client)

/-- The operation is one on the device or on an object. -/
def ClientOperation.OffFirestore (o : ClientOperation) : Prop := ∀ op, o ≠ .firestore op

/-- The documents are left alone by everything but a Firestore operation. -/
theorem ClientOperation.cloud_perform {o : ClientOperation} (h : o.OffFirestore)
    (platform : Platform) (given : Given) (client : Client) :
    (o.perform platform given client).2.cloud = client.cloud := by
  cases o <;> simp only [perform, Client.copyFile] <;> first | rfl | (split <;> rfl) | skip
  exact absurd rfl (h _)

/-- Issue an operation. -/
def ask (o : ClientOperation) : ClientProgram o.Response := Fallible.ask o

/-- A Firestore operation responds as it does. -/
def ClientOperation.documentResponse (op : Operation) (response : (firestore op).Response) :
    op.Response := response

/-- A program on the documents. -/
def onFirestore {α : Type} (p : AdminProgram α) : ClientProgram α :=
  Fallible.lift .firestore ClientOperation.documentResponse p

theorem onFirestore_bind {α β : Type} (p : AdminProgram α) (f : α → AdminProgram β) :
    onFirestore (p >>= f) = onFirestore p >>= fun a => onFirestore (f a) := Fallible.lift_bind p f

theorem onFirestore_perform (op : Operation) :
    onFirestore (Program.perform op) = (ask (.firestore op) : ClientProgram op.Response) := by
  rw [onFirestore, Fallible.lift_perform]
  refine congrArg (Program.call (ClientOperation.firestore op)) (funext fun r => ?_)
  cases r <;> rfl

/-- `_guarded`: a write that the rules deny reads as an ownership violation. -/
def guarding {α : Type} (resourceId : String) (p : ClientProgram α) : ClientProgram α := do
  match ← Fallible.attempt p with
  | .ok a => .done a
  | .error .permissionDenied => .fail (.ownershipViolation resourceId none)
  | .error e => .fail e

/-- The interpretation of a program that runs alone and meets no fault. -/
abbrev ClientOperation.interpret (platform : Platform) (given : Given) :
    Interpreter ClientOperation (fun o => Except CloudFailure o.Response) CloudFailure Client :=
  Fallible.interpret (ClientOperation.perform platform given)

/-! ## Runs without faults -/

/-- The failure that `_guarded` makes of a failure. -/
def guardedFailure (resourceId : String) : CloudFailure → CloudFailure
  | .permissionDenied => .ownershipViolation resourceId none
  | e => e

section

variable {platform : Platform} {given : Given} {client : Client} {α β : Type}

theorem exec_onFirestore (p : AdminProgram α) :
    (onFirestore p).exec (ClientOperation.interpret platform given) client =
      ((p.exec Operation.perform client.cloud).1,
        { client with cloud := (p.exec Operation.perform client.cloud).2 }) :=
  Fallible.exec_lift Client.cloud (fun client cloud => { client with cloud := cloud })
    (fun _ _ => rfl) (fun _ _ _ => rfl) (fun _ => rfl) (fun o s => by
      rcases h : o.perform s.cloud with ⟨e | a, t⟩ <;>
        simp [ClientOperation.perform, ClientOperation.documentResponse, h, Except.map]) p

theorem exec_guarding (resourceId : String) (p : ClientProgram α) :
    (guarding resourceId p).exec (ClientOperation.interpret platform given) client =
      match p.exec (ClientOperation.interpret platform given) client with
      | (.ok a, t) => (.ok a, t)
      | (.error e, t) => (.error (guardedFailure resourceId e), t) := by
  rw [guarding, Program.exec_bind, Fallible.exec_attempt]
  rcases p.exec (ClientOperation.interpret platform given) client with ⟨e | a, t⟩
  · cases e <;> rfl
  · rfl

variable {okAt : ClientOperation → Client → Prop}

theorem eachCall_onFirestore {okAt' : Operation → Cloud → Prop}
    (hok : ∀ op client, okAt (.firestore op) client ↔ okAt' op client.cloud) (p : AdminProgram α) :
    (onFirestore p).EachCall (ClientOperation.interpret platform given) okAt client ↔
      p.EachCall Operation.perform okAt' client.cloud :=
  Fallible.eachCall_lift Client.cloud hok (fun o s => by
    rcases h : o.perform s.cloud with ⟨e | a, t⟩ <;>
      simp [ClientOperation.perform, ClientOperation.documentResponse, h, Except.map]) p

theorem eachCall_onFirestore_perform {op : Operation} :
    (onFirestore (Program.perform op)).EachCall (ClientOperation.interpret platform given) okAt
      client ↔ okAt (.firestore op) client := by
  rw [onFirestore, Fallible.lift_perform, Program.eachCall_call]
  refine and_iff_left fun response t _ => ?_
  cases response <;> trivial

@[simp] theorem eachCall_guarding {resourceId : String} {p : ClientProgram α} :
    (guarding resourceId p).EachCall (ClientOperation.interpret platform given) okAt client ↔
      p.EachCall (ClientOperation.interpret platform given) okAt client := by
  rw [guarding, Program.eachCall_bind, Fallible.eachCall_attempt]
  refine and_iff_left fun outcome t _ => ?_
  rcases outcome with e | a
  · cases e <;> trivial
  · trivial

end

end Duet
