import Autotile.Event

/-! The board: every tile and object of the map as an entity, an index of the entities of each
layer by cell, and the order in which they are painted. An index keeps the order of arrival.
The first entities are the editor's own fixtures; they stand nowhere. -/
namespace Autotile

/-- A tile or an object. Only tiles have fragments. -/
structure Entity where
  cell : Cell
  sequence : Nat
  layer : Layer
  type : String
  fragments : List Fragment := []
  deriving DecidableEq, Repr

structure Board where
  fixtures : Nat
  entities : List (EntityId × Entity) := []
  tiles : List (Cell × EntityId) := []
  objects : List (Cell × EntityId) := []
  paintOrder : List EntityId := []
  nextSequence : Nat := 0
  nextId : EntityId := fixtures + 1
  deriving DecidableEq, Repr

namespace Board

def index (b : Board) : Layer → List (Cell × EntityId)
  | .tile => b.tiles
  | .object => b.objects

def setIndex (b : Board) (layer : Layer) (index : List (Cell × EntityId)) : Board :=
  match layer with
  | .tile => { b with tiles := index }
  | .object => { b with objects := index }

@[simp] theorem index_setIndex (b : Board) (layer : Layer) (index : List (Cell × EntityId)) :
    (b.setIndex layer index).index layer = index := by
  cases layer <;> rfl

theorem index_setIndex_of_ne (b : Board) {layer other : Layer} (h : other ≠ layer)
    (index : List (Cell × EntityId)) : (b.setIndex layer index).index other = b.index other := by
  cases layer <;> cases other <;> first | rfl | exact absurd rfl h

def find? (b : Board) (layer : Layer) (cell : Cell) : Option EntityId :=
  (b.index layer).lookup cell

def entity? (b : Board) (id : EntityId) : Option Entity := b.entities.lookup id

def isFixture (b : Board) (id : EntityId) : Bool := 1 ≤ id && id ≤ b.fixtures

def exists? (b : Board) (id : EntityId) : Bool := b.isFixture id || (b.entity? id).isSome

/-- Whether an entity may not be added to a layer at a cell. A tile fits under no object. -/
def blocks (b : Board) : Layer → Cell → Bool
  | .tile, cell => (b.find? .tile cell).isSome || (b.find? .object cell).isSome
  | .object, cell => (b.find? .object cell).isSome

def indexed (b : Board) : List EntityId := b.tiles.map (·.2) ++ b.objects.map (·.2)

/-- Adds an entity and numbers it; it is not yet painted. -/
def insert (b : Board) (layer : Layer) (cell : Cell) (type : String) : Board :=
  let entity : Entity := { cell, sequence := b.nextSequence, layer, type }
  { b.setIndex layer (b.index layer ++ [(cell, b.nextId)]) with
    entities := b.entities ++ [(b.nextId, entity)]
    nextSequence := b.nextSequence + 1
    nextId := b.nextId + 1 }

@[simp] theorem index_insert (b : Board) (layer : Layer) (cell : Cell) (type : String) :
    (b.insert layer cell type).index layer = b.index layer ++ [(cell, b.nextId)] := by
  cases layer <;> rfl

theorem find?_insert (b : Board) (layer : Layer) (cell c : Cell) (type : String) :
    (b.insert layer cell type).find? layer c =
      (b.find? layer c).or (if c = cell then some b.nextId else none) := by
  simp only [find?, index_insert, List.lookup_append]
  by_cases h : c = cell
  · subst h
    simp
  · simp [List.lookup_cons, beq_eq_false_iff_ne.2 h, h]

/-- Takes a cell out of an index; its entity stays. -/
def vacate (b : Board) (layer : Layer) (cell : Cell) : Board :=
  b.setIndex layer ((b.index layer).filter (·.1 ≠ cell))

@[simp] theorem index_vacate (b : Board) (layer : Layer) (cell : Cell) :
    (b.vacate layer cell).index layer = (b.index layer).filter (·.1 ≠ cell) := by
  simp [vacate]

def setOrder (b : Board) (order : List EntityId) : Board := { b with paintOrder := order }

def delete (b : Board) (id : EntityId) : Board :=
  { b with entities := b.entities.filter (·.1 ≠ id) }

def setFragments (b : Board) (id : EntityId) (fragments : List Fragment) : Board :=
  { b with
    entities := b.entities.map fun entry =>
      if entry.1 = id then (entry.1, { entry.2 with fragments }) else entry }

/-- Forgets every indexed entity. Numbers of entities are not given again, but the sequence
starts anew. -/
def clear (b : Board) : Board :=
  { b with
    entities := b.entities.filter fun entry => !b.indexed.contains entry.1
    tiles := []
    objects := []
    paintOrder := []
    nextSequence := 0 }

@[simp] theorem index_clear (b : Board) (layer : Layer) : b.clear.index layer = [] := by
  cases layer <;> rfl

end Board

end Autotile
