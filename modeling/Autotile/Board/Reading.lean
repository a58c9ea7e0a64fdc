import Autotile.Board.Basic
import Autotile.Cell.Depth
import Autotile.Datum.Reading

/-! Reading the board. A cell is looked up by its key, so one whose key cannot be written cannot
be looked up. -/
namespace Autotile

open Numeral

def Cell.checkKey (c : Cell) : Except Fault Unit :=
  if c.Keyed then .ok () else .error (.numeral .tooLongToWrite)

/-- Where an entity stands in the painting order: by depth, then by age. -/
structure Rank where
  depth : Binary64
  sequence : Nat
  id : EntityId
  deriving DecidableEq, Repr

namespace Rank

def le (a b : Rank) : Bool :=
  a.depth.lt b.depth ||
    (!b.depth.lt a.depth &&
      (a.sequence < b.sequence || (a.sequence = b.sequence && a.id ≤ b.id)))

end Rank

namespace Board

def entity (b : Board) (id : EntityId) : Except Fault Entity :=
  match b.entity? id with
  | some entity => .ok entity
  | none => if b.isFixture id then .error (.noPart .position) else .error (.noEntity (.int id))

def tile (b : Board) (id : EntityId) : Except Fault Entity := do
  let entity ← b.entity id
  if entity.layer = .tile then return entity else throw (.noPart .tileType)

def knows (b : Board) (given : Datum) : Except Fault Bool :=
  match given.toWhole? with
  | some (Int.ofNat id) => .ok (b.exists? id)
  | _ => if given.isKey then .ok false else .error .wrongKind

/-- The entity whose number a value stands for. -/
def idOf (b : Board) (given : Datum) : Except Fault EntityId := do
  if ← b.knows given then return (given.toWhole?.getD 0).toNat else throw (.noEntity given)

def idAt (b : Board) (layer : Layer) (cell : Cell) : Except Fault (Option EntityId) := do
  cell.checkKey
  return b.find? layer cell

def typeAt (b : Board) (layer : Layer) (cell : Cell) : Except Fault (Option String) := do
  match ← b.idAt layer cell with
  | some id => return some (← b.entity id).type
  | none => return none

def fragmentsAt (b : Board) (cell : Cell) : Except Fault (Option (List Fragment)) := do
  match ← b.idAt .tile cell with
  | some id => return some (← b.entity id).fragments
  | none => return none

def contents (b : Board) (layer : Layer) : Except Fault (List (Cell × String)) :=
  (b.index layer).mapM fun entry => do
    let entity ← b.entity entry.2
    return (entity.cell, entity.type)

def snapshot (b : Board) : Except Fault (List (Cell × String × List Fragment)) :=
  b.tiles.mapM fun entry => do
    let entity ← b.entity entry.2
    return (entity.cell, entity.type, entity.fragments)

def rank (b : Board) (id : EntityId) : Except Fault Rank := do
  let entity ← b.entity id
  return { depth := ← entity.cell.depth, sequence := entity.sequence, id }

def sorted (b : Board) (ids : List EntityId) : Except Fault (List EntityId) := do
  let ranks ← ids.mapM b.rank
  return (ranks.mergeSort Rank.le).map (·.id)

/-- The entities that a value lists, back to front and as they are named there. -/
def sortedGiven (b : Board) (given : Datum) : Except Fault (List Datum) :=
  match given.members? with
  | some members => do
    let ranked ← members.mapM fun named => do return (← b.rank (← b.idOf named), named)
    return (ranked.mergeSort fun x y => x.1.le y.1).map (·.2)
  | none => .error .wrongKind

def composed (b : Board) (book : Rulebook) (tile : Entity) : Except Fault (List Fragment) :=
  book.composeAt (b.typeAt .tile) tile.type tile.cell

end Board

end Autotile
