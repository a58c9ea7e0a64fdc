/-! The sprite of a tile: 32 by 24 pixels, cut into twelve fragments of 8 by 8. A slot is
labelled by its row and its column, both from one. -/
namespace Autotile.Sprite

def fragmentSize : Nat := 8
def columns : Nat := 4
def rows : Nat := 3
def width : Nat := fragmentSize * columns
def height : Nat := fragmentSize * rows

def slots : List String :=
  ["11", "12", "13", "14", "21", "22", "23", "24", "31", "32", "33", "34"]

def offsetAt (n : Nat) : Nat × Nat := (n % columns * fragmentSize, n / columns * fragmentSize)

def placements : List (String × Nat × Nat) := slots.mapIdx fun n slot => (slot, offsetAt n)

/-- Corners of the top face; there a rule may win although it is not met above. -/
def upperCorners : List String := ["11", "14", "21", "24"]

end Autotile.Sprite
