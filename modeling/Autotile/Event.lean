import Autotile.Fragment
import Autotile.Layer
import Autotile.Payload

/-! What the editor publishes. -/
namespace Autotile

/-- Entities of a map are numbered and no number is used twice. -/
abbrev EntityId := Nat

inductive Refusal where
  | occupied
  | empty
  deriving DecidableEq, Repr

def Refusal.name : Refusal → String
  | .occupied => "occupied"
  | .empty => "empty"

inductive Event where
  | added (layer : Layer) (id : EntityId) (cell : Cell) (type : String)
  | removed (layer : Layer) (id : EntityId) (cell : Cell) (type : String)
  /-- A tile was composed anew; `named` is its number as it was asked for. -/
  | recomposed (id : EntityId) (cell : Cell) (fragments : List Fragment) (named : Datum)
  | reordered (order : List EntityId)
  | refused (layer : Layer) (cell : Cell) (reason : Refusal)
  | loaded (tiles objects skipped : Nat)
  | cleared
  | brushChanged (mode : Mode) (type : Datum)
  /-- An event of one of the published names that came from outside. -/
  | relayed (name : String) (payload : Payload)

namespace Event

def name : Event → String
  | .added layer .. => layer.name ++ "_added"
  | .removed layer .. => layer.name ++ "_removed"
  | .recomposed .. => "tile_fragments_changed"
  | .reordered _ => "paint_order_changed"
  | .refused .. => "map_edit_rejected"
  | .loaded .. => "map_loaded"
  | .cleared => "map_cleared"
  | .brushChanged .. => "brush_changed"
  | .relayed name _ => name

def publishedNames : List String :=
  ["tile_added", "tile_removed", "object_added", "object_removed", "tile_fragments_changed",
   "paint_order_changed", "map_edit_rejected", "map_loaded", "map_cleared", "brush_changed"]

end Event

end Autotile
