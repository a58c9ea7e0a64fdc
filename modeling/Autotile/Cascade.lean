import Autotile.Rulebook.Basic

/-! The cells whose tiles are composed anew after an edit, as offsets from the edited cell. -/
namespace Autotile

/-- Paths of two steps that are followed whatever the rules ask. -/
def secondOrderPaths : List Path :=
  [[.up, .up], [.up, .north], [.up, .west], [.down, .down], [.down, .south], [.down, .east]]

/-- Each cell once, layer by layer, without the origin. -/
def sortedOffsets (cells : List Cell) : List Cell :=
  (cells.foldl (fun seen c => seen.insert c) []).filter (· ≠ Cell.origin)
    |>.mergeSort Cell.layerLE

/-- The six neighbours, the second-order cells, and every cell from which a rule looks at the
edited one. -/
def cascadeOffsets (dependencies : List Cell) : List Cell :=
  sortedOffsets (Direction.all.map (·.offset) ++ secondOrderPaths.map Path.offset ++ dependencies)

def Rulebook.cascadeOffsets (b : Rulebook) : List Cell := Autotile.cascadeOffsets b.dependencies

end Autotile
