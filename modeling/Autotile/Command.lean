import Autotile.Datum.Basic
import Autotile.Layer

/-! What an editing session can be asked to do. Arguments come as they were given. -/
namespace Autotile

inductive Command where
  | add (layer : Layer) (cell type : Datum)
  | remove (layer : Layer) (cell : Datum)
  | clear
  | load (data : Datum) (replace : Bool)
  | reload (replace : Bool)
  | refresh (entity : Datum)
  | cascade (cell : Datum)
  | select (mode type : Datum)
  | apply (cell side : Datum)
  | emit (event : Datum) (payload : Datum)
  | typeAt (layer : Layer) (cell : Datum)
  | entityAt (layer : Layer) (cell : Datum)
  | fragmentsAt (cell : Datum)
  | contents (layer : Layer)
  | snapshot
  | save
  | paintOrder
  | isKnown (entity : Datum)
  | position (entity : Datum)
  | sorted (entities : Datum)
  | offsets
  | brush
  /-- Asks for a type where there is no map. -/
  | elsewhere
  /-- Leaves commands to be run, one at each event of a name. -/
  | await (event : String) (commands : List Command)
  deriving Inhabited

namespace Command

mutual

def weight : Command → Nat
  | .await _ commands => 1 + weights commands
  | _ => 1

def weights : List Command → Nat
  | [] => 0
  | command :: commands => weight command + weights commands

end

end Command

end Autotile
