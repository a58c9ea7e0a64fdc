import Autotile.Studio.Requests

/-! Running a command at a desk, and what is answered. -/
namespace Autotile

inductive Answer where
  | nothing
  | truth (b : Bool)
  | count (n : Nat)
  | entity (id : Option EntityId)
  | entities (ids : List EntityId)
  /-- Entities as the command named them. -/
  | listed (entities : List Datum)
  | type (type : Option String)
  | fragments (fragments : Option (List Fragment))
  | contents (tiles : List (Cell × String))
  | snapshot (tiles : List (Cell × String × List Fragment))
  | saved (map : SavedMap)
  | position (cell : Cell) (sequence : Nat)
  | cells (cells : List Cell)
  | brush (brush : Brush)

namespace Command

open Edit Desk

def run (d : Desk) : Command → Edit Answer
  | .add layer cell type => return .entity (← d.addGiven layer cell type)
  | .remove layer cell => return .truth (← d.removeGiven layer cell)
  | .clear => do
    d.clear
    return .nothing
  | .load data replace => return .count (← d.load data replace)
  | .reload replace => return .count (← d.reload replace)
  | .refresh entity => return .truth (← d.refreshGiven entity)
  | .cascade cell => do
    let cell ← consult fun _ => cell.toCell
    return .entities (← d.cascade cell)
  | .select mode type => return .brush (← d.select mode type)
  | .apply cell side => return .truth (← d.applyGiven cell side)
  | .emit event payload => do
    d.emit event payload
    return .nothing
  | .typeAt layer cell => return .type (← consult fun b => do b.typeAt layer (← cell.toCell))
  | .entityAt layer cell => return .entity (← consult fun b => do b.idAt layer (← cell.toCell))
  | .fragmentsAt cell => return .fragments (← consult fun b => do b.fragmentsAt (← cell.toCell))
  | .contents layer => return .contents (← consult (·.contents layer))
  | .snapshot => return .snapshot (← consult (·.snapshot))
  | .save => return .saved (← consult Board.save)
  | .paintOrder => return .entities (← consult fun b => .ok b.paintOrder)
  | .isKnown entity => return .truth (← consult (·.knows entity))
  | .position entity => do
    let entity ← consult fun b => do b.entity (← b.idOf entity)
    return .position entity.cell entity.sequence
  | .sorted entities => return .listed (← consult (·.sortedGiven entities))
  | .offsets => return .cells d.offsets
  | .brush => return .brush (← Desk.brush)
  | .elsewhere => throw .noMap
  | .await event commands => do
    modify fun s => { s with cues := s.cues ++ commands.map fun command => (event, command) }
    return .nothing

end Command

end Autotile
