import Duet.Device.State

/-!
# The layers of the score view

`ScoreBloc` shows one layer for each participant of the piece that is open.

## Main definitions

* `projectLayers` — `_projectLayers`: one layer for the owner and each collaborator.
* `Device.scoreLayers` — the layers shown when a piece of the device is open.

## Main results

* `exists_mem_projectLayers_iff` — a participant's layer carries the strokes stored under their id,
  and nobody else has one.
-/

namespace Duet

def kInkPaletteSize : Nat := 5

def inkColorIdFor (index : Nat) : String := s!"p{index % kInkPaletteSize}"

/-- One participant's ink as the score view shows it. -/
structure ParticipantLayer where
  ownerId : String
  label : String
  colorId : String
  strokes : List InkStroke
  visible : Bool
  isOwn : Bool
  hasNewInk : Bool
  deriving DecidableEq, Repr

/-- What the projection reads of `ScoreState`. -/
structure ScoreState where
  currentUserId : String
  hiddenInkOwnerIds : List String
  lastOpenedAt : Option DateTime
  deriving DecidableEq, Repr

/-- `_strokesForOwner`. -/
def strokesForOwner (annotations : PieceAnnotations) (owner : String) : List InkStroke :=
  match annotations.layers.find? fun layer => layer.ownerId == owner with
  | some layer => layer.strokes
  | none => []

/-- `_hasNewInk`. -/
def hasNewInk (annotations : PieceAnnotations) (owner : String) (isOwn : Bool)
    (lastOpenedAt : Option DateTime) : Bool :=
  match lastOpenedAt, annotations.layers.find? fun layer => layer.ownerId == owner with
  | some opened, some layer =>
    !isOwn && layer.updatedAt.any fun updatedAt => opened.micros < updatedAt.micros
  | _, _ => false

/-- `_labelForParticipant`. -/
def labelForParticipant (piece : Piece) (ownerId : String) (index : Nat) : String :=
  if ownerId = piece.ownerId then piece.ownerName.getD "Owner"
  else match piece.collaborators.find? fun collaborator => collaborator.uid == ownerId with
    | some collaborator => collaborator.name.getD s!"Collaborator {index}"
    | none => s!"Collaborator {index}"

/-- The layer of the participant at `index`. -/
def participantLayer (piece : Piece) (annotations : PieceAnnotations) (state : ScoreState)
    (index : Nat) (participantId : String) : ParticipantLayer where
  ownerId := participantId
  label := labelForParticipant piece participantId index
  colorId := inkColorIdFor index
  strokes := strokesForOwner annotations participantId
  visible := !state.hiddenInkOwnerIds.contains participantId
  isOwn := participantId == state.currentUserId
  hasNewInk := hasNewInk annotations participantId (participantId == state.currentUserId)
    state.lastOpenedAt

/-- `_projectLayers`. -/
def projectLayers (piece : Piece) (annotations : PieceAnnotations) (state : ScoreState) :
    List ParticipantLayer :=
  piece.participantIds.mapIdx (participantLayer piece annotations state)

/-- The layers once the piece is open and its annotations have arrived. -/
def Device.scoreLayers (d : Device) (state : ScoreState) (pieceId : String) :
    Option (List ParticipantLayer) :=
  (d.findPiece pieceId).map fun piece =>
    projectLayers piece (d.annotationsFor pieceId).withoutTombstones state

variable {piece : Piece} {annotations : PieceAnnotations} {state : ScoreState}

theorem map_ownerId_projectLayers :
    (projectLayers piece annotations state).map (·.ownerId) = piece.participantIds := by
  apply List.ext_getElem
  · simp [projectLayers]
  · intro i _ _
    simp [projectLayers, participantLayer]

theorem strokes_of_mem_projectLayers {layer : ParticipantLayer}
    (h : layer ∈ projectLayers piece annotations state) :
    layer.strokes = strokesForOwner annotations layer.ownerId := by
  obtain ⟨i, hi, rfl⟩ := List.mem_mapIdx.mp h
  rfl

/-- A participant's layer carries the strokes stored under their id, and nobody else has one. -/
theorem exists_mem_projectLayers_iff {owner : String} {strokes : List InkStroke} :
    (∃ layer ∈ projectLayers piece annotations state,
        layer.ownerId = owner ∧ layer.strokes = strokes) ↔
      owner ∈ piece.participantIds ∧ strokesForOwner annotations owner = strokes := by
  rw [← @map_ownerId_projectLayers piece annotations state, List.mem_map]
  constructor
  · intro ⟨layer, hlayer, howner, hstrokes⟩
    refine ⟨⟨layer, hlayer, howner⟩, ?_⟩
    rw [← howner, ← strokes_of_mem_projectLayers hlayer, hstrokes]
  · intro ⟨⟨layer, hlayer, howner⟩, hstrokes⟩
    refine ⟨layer, hlayer, howner, ?_⟩
    rw [strokes_of_mem_projectLayers hlayer, howner, hstrokes]

/-- With a single layer stored under an owner's id, its strokes are the owner's. -/
theorem strokesForOwner_of_layersOf {owner : String} {layer : InkLayer}
    (h : annotations.layersOf owner = [layer]) :
    strokesForOwner annotations owner = layer.strokes := by
  have hfind : annotations.layers.find? (fun l => l.ownerId == owner) = some layer := by
    rw [← List.head?_filter]
    exact congrArg List.head? h
  rw [strokesForOwner, hfind]

end Duet
