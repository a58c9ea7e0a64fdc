import Autotile.Choice

/-! Composing a tile's sprite from the textures chosen for its twelve slots. -/
namespace Autotile

structure Fragment where
  slot : String
  texture : String
  x : Nat
  y : Nat
  score : Int
  deriving DecidableEq, Repr

namespace Fragment

/-- The last fragment of each slot, slots in order of arrival. -/
def bySlot (fragments : List Fragment) : List (String × Fragment) :=
  fragments.foldl (fun kept f =>
    if kept.any (·.1 = f.slot) then kept.map fun e => if e.1 = f.slot then (e.1, f) else e
    else kept ++ [(f.slot, f)]) []

def textureFor (slot : String) (fragments : List Fragment) : Option String :=
  (fragments.find? (·.slot = slot)).map (·.texture)

def textures (fragments : List Fragment) : List String := fragments.map (·.texture)

end Fragment

variable {m : Type → Type} [Monad m]

namespace Rulebook

def place (b : Rulebook) (around : Surroundings m) (type : String) (elevation : Int)
    (placement : String × Nat × Nat) : m (Option Fragment) := do
  let (slot, x, y) := placement
  return (← b.choose around { type, slot, elevation }).map fun c =>
    { slot, texture := c.rule.name, x, y, score := c.score }

/-- Slots without a texture are left out. -/
def compose (b : Rulebook) (around : Surroundings m) (type : String) (elevation : Int) :
    m (List Fragment) :=
  Sprite.placements.filterMapM (b.place around type elevation)

/-- The fragments of a tile at a cell, where `look` tells the type at each cell of the map. -/
def composeAt (b : Rulebook) (look : Cell → m (Option String)) (type : String) (cell : Cell) :
    m (List Fragment) :=
  b.compose (fun offset => look (cell + offset)) type cell.u

def preview (b : Rulebook) (type : String) : List Fragment :=
  Id.run (b.compose Surroundings.empty type 0)

end Rulebook

end Autotile
