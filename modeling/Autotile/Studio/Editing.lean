import Autotile.Studio.Basic

/-! Edits of the map. An edit runs to its end before it answers: a new tile is composed, the
painting order is sorted, and every tile whose rules can see the edited cell is composed anew.
To add where something stands, or to remove where nothing does, is refused. -/
namespace Autotile.Desk

open Edit

def refreshAs (d : Desk) (named : Datum) (id : EntityId) : Edit Bool := do
  let tile ← consult (·.tile id)
  let fragments ← consult (·.composed d.book tile)
  if tile.fragments = fragments then return false
  alter (·.setFragments id fragments)
  d.publish (.recomposed id tile.cell fragments named)
  return true

def refresh (d : Desk) (id : EntityId) : Edit Bool := d.refreshAs (.int id) id

def refreshGiven (d : Desk) (tile : Datum) : Edit Bool := do
  d.refreshAs tile (← consult (·.idOf tile))

/-- The tile at a cell, if there is one and its fragments changed. -/
def refreshAt (d : Desk) (cell : Cell) : Edit (Option EntityId) := do
  match ← consult (·.idAt .tile cell) with
  | some id => if ← d.refresh id then return some id else return none
  | none => return none

/-- Composes anew the tiles that an edit at a cell may affect, and answers those that changed. -/
def cascade (d : Desk) (cell : Cell) : Edit (List EntityId) := do
  let changed ← d.offsets.filterMapM fun offset => d.refreshAt (cell + offset)
  consult fun _ => cell.checkKey
  note (.cascaded cell changed.length)
  return changed

def repaint (d : Desk) : Edit Unit := do
  let order ← consult fun b => b.sorted b.indexed
  alter (·.setOrder order)
  d.publish (.reordered order)

/-- Deletes an entity that is no longer indexed. -/
def discard (d : Desk) (id : EntityId) : Edit Unit := do
  let order ← consult fun b => .ok b.paintOrder
  if order.contains id then
    alter (·.setOrder (order.erase id))
    d.publish (.reordered (order.erase id))
  alter (·.delete id)

def refuse (d : Desk) (layer : Layer) (cell : Cell) (reason : Refusal) : Edit Unit := do
  match reason with
  | .occupied => note (.occupied layer cell)
  | .empty => note (.nothingThere layer cell)
  d.publish (.refused layer cell reason)

/-- The number of the new entity, unless the edit was refused. -/
def add (d : Desk) (layer : Layer) (cell : Cell) (type : String) : Edit (Option EntityId) := do
  consult fun _ => cell.checkKey
  if ← consult fun b => .ok (b.blocks layer cell) then
    d.refuse layer cell .occupied
    return none
  let id ← consult fun b => .ok b.nextId
  alter (·.insert layer cell type)
  if layer = .tile then let _ ← d.refresh id
  d.repaint
  if layer = .tile then let _ ← d.cascade cell
  d.publish (.added layer id cell type)
  return some id

def remove (d : Desk) (layer : Layer) (cell : Cell) : Edit Bool := do
  match ← consult (·.idAt layer cell) with
  | none =>
    d.refuse layer cell .empty
    return false
  | some id =>
    alter (·.vacate layer cell)
    let entity ← consult (·.entity id)
    d.discard id
    if layer = .tile then let _ ← d.cascade cell
    d.publish (.removed layer id cell entity.type)
    return true

def clear (d : Desk) : Edit Unit := do
  alter Board.clear
  d.publish .cleared

def addGiven (d : Desk) (layer : Layer) (cell type : Datum) : Edit (Option EntityId) := do
  let cell ← consult fun _ => cell.toCell
  let type ← consult fun _ => type.toTypeName
  d.add layer cell type

def removeGiven (d : Desk) (layer : Layer) (cell : Datum) : Edit Bool := do
  let cell ← consult fun _ => cell.toCell
  d.remove layer cell

end Autotile.Desk
