/-! The types that the editor offers to put on a map. -/
namespace Autotile.Palette

def tileTypes : List String :=
  ["wall", "rock", "rock_moss", "dirt", "dirt_grass1", "dirt_grass2", "dirt_stones", "dirt_pile",
   "dirt_bush"]

def objectTypes : List String := ["flower", "small_pine", "large_pine", "large-rock"]

end Autotile.Palette
