import Mathlib.Data.List.Basic

/-!
# Pieces

The `Piece` entity, its collaborators and the instants the app stores.
-/

namespace Duet

/-- A `DateTime` of local time, in microseconds since the epoch. The app builds no other, so that
`isUtc` is left out. -/
structure DateTime where
  micros : Int
  inRange : micros.natAbs ≤ 8640000000000000000
  deriving DecidableEq, Repr

namespace DateTime

/-- So many microseconds after the epoch. -/
def sinceEpoch (micros : UInt8) : DateTime :=
  ⟨micros.toNat, by have := micros.toNat_lt; omega⟩

/-- Whole milliseconds since the epoch, truncated. -/
def millisecondsSinceEpoch (t : DateTime) : Int := t.micros.tdiv 1000

/-- A `RangeError` outside of the representable instants. -/
def fromMillisecondsSinceEpoch (millis : Int) : Option DateTime :=
  if h : millis.natAbs ≤ 8640000000000000 then some ⟨millis * 1000, by omega⟩ else none

theorem natAbs_millisecondsSinceEpoch (t : DateTime) :
    t.millisecondsSinceEpoch.natAbs ≤ 8640000000000000 := by
  have h := t.inRange
  rw [millisecondsSinceEpoch, Int.natAbs_tdiv]
  change t.micros.natAbs / 1000 ≤ _
  omega

/-- The instant at millisecond precision. -/
def toMillisecondPrecision (t : DateTime) : DateTime :=
  ⟨t.millisecondsSinceEpoch * 1000, by have := t.natAbs_millisecondsSinceEpoch; omega⟩

@[simp] theorem fromMillisecondsSinceEpoch_millisecondsSinceEpoch (t : DateTime) :
    fromMillisecondsSinceEpoch t.millisecondsSinceEpoch = some t.toMillisecondPrecision := by
  simp [fromMillisecondsSinceEpoch, toMillisecondPrecision, natAbs_millisecondsSinceEpoch]

end DateTime

/-- Whole milliseconds are at millisecond precision. -/
theorem toMillisecondPrecision_fromMillisecondsSinceEpoch {millis : Int} {t : DateTime}
    (h : DateTime.fromMillisecondsSinceEpoch millis = some t) : t.toMillisecondPrecision = t := by
  unfold DateTime.fromMillisecondsSinceEpoch at h
  split_ifs at h
  obtain rfl := Option.some.inj h
  simp [DateTime.toMillisecondPrecision, DateTime.millisecondsSinceEpoch]

/-- A participant granted access to a piece beyond its owner. -/
structure Collaborator where
  uid : String
  name : Option String
  email : Option String
  deriving DecidableEq, Repr

/-- A sheet of music, owned by one user and shared with its collaborators. -/
structure Piece where
  id : String
  title : String
  basePdfChecksum : String
  basePdfPath : String
  ownerId : String
  ownerName : Option String
  collaborators : List Collaborator
  createdAt : DateTime
  updatedAt : DateTime
  deriving DecidableEq, Repr

namespace Piece

def collaboratorIds (piece : Piece) : List String := piece.collaborators.map (·.uid)

/-- The owner, then every collaborator. -/
def participantIds (piece : Piece) : List String := piece.ownerId :: piece.collaboratorIds

def isCollaborator (piece : Piece) (userId : String) : Bool :=
  piece.collaborators.any (·.uid == userId)

def isParticipant (piece : Piece) (userId : String) : Bool :=
  userId == piece.ownerId || piece.isCollaborator userId

theorem isCollaborator_iff {piece : Piece} {userId : String} :
    piece.isCollaborator userId = true ↔ userId ∈ piece.collaboratorIds := by
  simp [isCollaborator, collaboratorIds]

/-- `isParticipant` is membership in `participantIds`. -/
theorem isParticipant_iff {piece : Piece} {userId : String} :
    piece.isParticipant userId = true ↔ userId ∈ piece.participantIds := by
  simp [isParticipant, participantIds, isCollaborator_iff]

end Piece

end Duet
