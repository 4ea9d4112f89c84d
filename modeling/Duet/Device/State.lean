import Duet.Domain.Annotation
import Duet.Lib.Effect
import Duet.Lib.Path
import Duet.Lib.Value

/-!
# One device: its stores and what its calls depend on

The state of a device in the default composition (pieces, annotations and recordings on the
device itself) and the surroundings of one call: the signed-in user, the clock, and which of the
steps of the call fail. Every platform call a repository awaits has its own `Step`, so that a
failure can be placed at any point of a call.

Preferences hold JSON text in the app; here they hold the values that text decodes to.
-/

namespace Duet

open Lib

/-- The content of a file: opaque bytes, or JSON text given by the value it decodes to. -/
inductive Content where
  | bytes (data : List UInt8)
  | json (value : Value)
  deriving DecidableEq, Repr

/-- The value that JSON text decodes to. -/
def Content.decodeJson : Content → Option Value
  | .bytes _ => none
  | .json value => some value

/-- The platform calls that a call on the device's repositories awaits. -/
inductive Step where
  | readBundle | bundlesDirectory | writePdf | checksumPdf | copyPdf | persistPieces | removePdf
  | audioDirectory | writeAudio (entry : Nat) | putAudio (entry : Nat) | removeAudio (entry : Nat)
  | persistAnnotations | deleteAsset (assetId : String) | markApplied | notify
  | readAudio (entry : Nat) | readPdf | exportManifest | writeBundle | markShared
  deriving DecidableEq, Repr

/-- Why a call failed. A message that ends in the error it reports keeps that error as its
`cause`; `typeError` stands for every failed cast or conversion of decoded data. -/
inductive Failure where
  | stateError (message : String)
  | ownershipViolation (resourceId : String) (reason : Option String)
  | reviewSync (message : String)
  | reviewSyncCaused (message : String) (cause : Failure)
  | typeError
  | invalidArchive
  | platform (step : Step)
  deriving DecidableEq, Repr

/-- The surroundings of one call. `clock` is the clock as read at a step. -/
structure Env where
  currentUserId : String
  currentUserName : Option String
  documentsDirectory : String
  bundlesDirectory : String
  clock : Step → DateTime
  fails : Step → Bool

/-- A call during which no step fails and the clock stands still. -/
def Env.quiet (currentUserId : String) (now : DateTime) : Env :=
  ⟨currentUserId, none, "/documents", "/tmp", fun _ => now, fun _ => false⟩

/-- Noon of the first day. -/
def noon : DateTime := ⟨43200000000, by decide⟩

/-- A recording under `audio_notes/`: the extension of its file and the content. -/
structure AudioAsset where
  extension : String
  content : Content
  deriving DecidableEq, Repr

/-- The preferences: `pieces.records`, `pieces.annotations.<id>`, `review_sync.base_shared.<id>`
and `review_sync.last_applied.<id>.<author>`. -/
structure LocalStorage where
  pieceRecords : Option (List Piece)
  annotations : Assoc String PieceAnnotations
  baseShared : Assoc String Bool
  lastApplied : Assoc String Int
  deriving DecidableEq, Repr

/-- The state of a device: `LocalPieceRepository`'s and `LocalAnnotationRepository`'s memory, the
audio assets and files on disk, and the preferences. -/
structure Device where
  pieces : List Piece
  pieceSeq : Nat
  annotationCache : Assoc String PieceAnnotations
  audioAssets : Assoc String AudioAsset
  audioSeq : Nat
  files : Assoc String Content
  storage : LocalStorage
  deriving DecidableEq, Repr

namespace Device

/-- A device on which nothing has been stored yet. -/
def fresh : Device := ⟨[], 0, [], [], 0, [], ⟨none, [], [], []⟩⟩

/-- `_findOrNull`. -/
def findPiece (d : Device) (pieceId : String) : Option Piece :=
  d.pieces.find? fun piece => piece.id == pieceId

/-- `getPiece`. -/
def getPiece (d : Device) (pieceId : String) : Except Failure Piece :=
  match d.findPiece pieceId with
  | none => .error (.stateError s!"Unknown piece: {pieceId}")
  | some piece => .ok piece

/-- `_annotationsFor`, as a value: the cached annotations, else the stored ones. -/
def annotationsFor (d : Device) (pieceId : String) : PieceAnnotations :=
  match d.annotationCache.get pieceId with
  | some cached => cached
  | none => (d.storage.annotations.get pieceId).getD (.empty pieceId)

end Device

/-- A call on a device. -/
abbrev Action (α : Type) := Effect Device Failure α

/-- Await a platform call. -/
def Env.await (env : Env) (step : Step) : Action Unit :=
  if env.fails step then Effect.fail (.platform step) else pure ()

theorem Env.exec_await_of_not_fails {env : Env} {step : Step} (h : env.fails step = false)
    (d : Device) : (env.await step).exec d = (.ok (), d) := by simp [Env.await, h]

theorem Env.exec_await_of_fails {env : Env} {step : Step} (h : env.fails step = true)
    (d : Device) : (env.await step).exec d = (.error (.platform step), d) := by
  simp [Env.await, h]

theorem Env.await_ok {env : Env} {step : Step} {d d' : Device} :
    (env.await step).exec d = (.ok (), d') ↔ env.fails step = false ∧ d' = d := by
  cases h : env.fails step <;> simp [Env.await, h, eq_comm]

theorem Env.respects_await (env : Env) (step : Step) (R : Device → Device → Prop) [Std.Refl R] :
    Effect.Respects R (env.await step) := by
  intro d
  cases h : env.fails step <;> simpa [Env.await, h] using refl_of R d

end Duet
