import Autotile.Datum.Basic
import Autotile.Sprite

/-! The sprite sheet of top faces: a column of 32 pixels for each type and, below the fixed
bands, a band of 16 pixels for each neighbouring type. A frame's name is the identifier of its
rule. -/
namespace Autotile.Atlas

/-- A frame's place in fragments, counted from the top left of its type's column. -/
structure Spot where
  column : Nat
  row : Nat
  deriving DecidableEq, Repr

structure Rect where
  x : Nat
  y : Nat
  w : Nat
  h : Nat
  deriving DecidableEq, Repr

/-- Slot, constraints and place of the frames that do not depend on a neighbour's type. -/
def fixedFrames : List (String × String × Spot) :=
  [("11", "w:0,u:!,s:0", ⟨0, 0⟩), ("12", "w:0,u:!,n:0", ⟨1, 0⟩),
   ("13", "n:0,u:!,w:0", ⟨2, 0⟩), ("14", "n:0,u:!,e:0", ⟨3, 0⟩),
   ("21", "s:0,u:!,w:0", ⟨0, 1⟩), ("22", "s:0,u:!,e:0", ⟨1, 1⟩),
   ("23", "e:0,u:!,s:0", ⟨2, 1⟩), ("24", "e:0,u:!,n:0", ⟨3, 1⟩),
   ("11", "w:0,u:!", ⟨0, 2⟩), ("12", "w:0,u:!", ⟨1, 2⟩),
   ("13", "n:0,u:!", ⟨2, 2⟩), ("14", "n:0,u:!", ⟨3, 2⟩),
   ("21", "s:!,u:!", ⟨0, 3⟩), ("22", "s:!,u:!", ⟨1, 3⟩),
   ("23", "e:!,u:!", ⟨2, 3⟩), ("24", "e:!,u:!", ⟨3, 3⟩),
   ("11", "w:1,wu:1,u:!", ⟨0, 4⟩), ("12", "w:1,wu:1,u:!", ⟨1, 4⟩),
   ("13", "n:1,nu:1,u:!", ⟨2, 4⟩), ("14", "n:1,nu:1,u:!", ⟨3, 4⟩)]

/-- Slot, the letter of the direction in which the neighbour lies, the other constraints and
place of the frames for a neighbour's type. -/
def neighborFrames : List (String × String × String × Spot) :=
  [("11", "w", ",wu:0,u:!", ⟨0, 0⟩), ("12", "w", ",wu:0,u:!", ⟨1, 0⟩),
   ("13", "n", ",nu:0,u:!", ⟨2, 0⟩), ("14", "n", ",nu:0,u:!", ⟨3, 0⟩),
   ("21", "s", ",u:!", ⟨0, 1⟩), ("22", "s", ",u:!", ⟨1, 1⟩),
   ("23", "e", ",u:!", ⟨2, 1⟩), ("24", "e", ",u:!", ⟨3, 1⟩)]

def neighborTop : Nat := 6

def frameName (type slot constraints : String) : String :=
  type ++ "-" ++ slot ++ "-" ++ constraints ++ ".png"

def neighborConstraints (direction neighbor rest : String) : String :=
  direction ++ ":" ++ neighbor ++ rest

/-- The frames of a type and their places, in order; a name that is given again keeps its
position and takes the later place. -/
def spots (type : String) (neighbors : List String) : List (String × Spot) :=
  let fixed := fixedFrames.map fun (slot, constraints, spot) =>
    (frameName type slot constraints, spot)
  let bands := neighbors.mapIdx fun n neighbor =>
    neighborFrames.map fun (slot, direction, rest, spot) =>
      (frameName type slot (neighborConstraints direction neighbor rest),
        Spot.mk spot.column (neighborTop + 2 * n + spot.row))
  (fixed ++ bands.flatten).foldl (fun kept frame => Datum.setEntry frame.1 frame.2 kept) []

def columnWidth : Nat := Sprite.fragmentSize * 4

def rectAt (n : Nat) (spot : Spot) : Rect :=
  { x := n * columnWidth + spot.column * Sprite.fragmentSize
    y := spot.row * Sprite.fragmentSize
    w := Sprite.fragmentSize
    h := Sprite.fragmentSize }

def frames (types : List String) : List (String × Rect) :=
  let all := types.mapIdx fun n type =>
    (spots type types).map fun frame => (frame.1, rectAt n frame.2)
  all.flatten.foldl (fun kept frame => Datum.setEntry frame.1 frame.2 kept) []

def sheetWidth (types : List String) : Nat := columnWidth * types.length

def sheetHeight (types : List String) : Nat := (3 + types.length) * Sprite.fragmentSize * 2

def image : String := "top-faces.png"

def pixelFormat : String := "RGBA8888"

def pixelScale : String := "1"

def Rect.toDatum (r : Rect) : Datum :=
  .record [("frame", .record [("x", .int r.x), ("y", .int r.y), ("w", .int r.w), ("h", .int r.h)])]

/-- The record of a sheet: its frames by name, and the image that holds them. -/
def sheet (types : List String) : Datum :=
  .record
    [("frames", .record ((frames types).map fun frame => (frame.1, frame.2.toDatum))),
     ("meta", .record
       [("image", .text image), ("format", .text pixelFormat),
        ("size", .record [("w", .int (sheetWidth types)), ("h", .int (sheetHeight types))]),
        ("scale", .text pixelScale)])]

def standardTypes : List String :=
  ["dirt", "dirt_grass1", "dirt_grass2", "dirt_stones", "dirt_pile", "rock", "rock_moss"]

end Autotile.Atlas
