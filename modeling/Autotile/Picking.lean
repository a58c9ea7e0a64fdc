import Autotile.Cell.Direction
import Autotile.Fault
import Autotile.Numeral.Binary64

/-! Which face of a tile's sprite a point lies on. Coordinates grow to the right and downwards;
they are integers, compared exactly, or binary floating-point numbers. -/
namespace Autotile

open Numeral

inductive Number where
  | int (n : Int)
  | real (x : Binary64)
  deriving DecidableEq, Repr

namespace Number

def ofDatum : Datum → Except Fault Number
  | .int n => .ok (.int n)
  | .flag b => .ok (.int (if b then 1 else 0))
  | .real x => .ok (.real x)
  | _ => .error .wrongKind

def place? : Number → Option Binary64.Place
  | .int n => some (.at (n * Binary64.one))
  | .real x => x.place?

def lt (a b : Number) : Bool := Binary64.placed Binary64.Place.lt a.place? b.place?

def le (a b : Number) : Bool :=
  Binary64.placed (fun p q => !Binary64.Place.lt q p) a.place? b.place?

def half : Number → Except Fault Binary64
  | .real x => .ok (x.divNat 2)
  | .int n =>
    match Binary64.ofRatio n 2 with
    | .finite s u => .ok (.finite s u)
    | _ => .error .quotientTooLarge

end Number

def Numeral.Binary64.divInt (x : Binary64) (d : Int) : Binary64 :=
  if d < 0 then (x.divNat d.natAbs).neg else x.divNat d.natAbs

/-- `a * (y - b) / d`, where an integer `y` is rounded once and any other at each step. -/
def Number.slope (y : Number) (a b d : Int) : Binary64 :=
  match y with
  | .int n => Binary64.ofRatio (if d < 0 then -(a * (n - b)) else a * (n - b)) d.natAbs
  | .real x => ((Binary64.ofInt a).mul (x.sub (Binary64.ofInt b))).divInt d

namespace Sprite

structure Point where
  x : Int
  y : Int
  deriving DecidableEq, Repr

def outline : List Point :=
  [⟨0, 7⟩, ⟨15, 0⟩, ⟨17, 0⟩, ⟨32, 7⟩, ⟨32, 16⟩, ⟨17, 23⟩, ⟨15, 23⟩, ⟨0, 16⟩]

def edges : List (Point × Point) := outline.zip (⟨0, 16⟩ :: outline.dropLast)

/-- The edge has one end above the height and the other not. -/
def straddles (y : Number) (edge : Point × Point) : Bool :=
  y.lt (.int edge.1.y) != y.lt (.int edge.2.y)

def edgeAt (y : Number) (edge : Point × Point) : Binary64 :=
  (y.slope (edge.2.x - edge.1.x) edge.1.y (edge.2.y - edge.1.y)).add (Binary64.ofInt edge.1.x)

/-- A ray to the right of the point meets the edge. -/
def crosses (x y : Number) (edge : Point × Point) : Bool :=
  straddles y edge && x.lt (.real (edgeAt y edge))

/-- A point is inside if a ray to its right meets the outline an odd number of times. -/
def contains (x y : Number) : Bool := edges.countP (crosses x y) % 2 = 1

def halves (n : Nat) : Binary64 := .finite false (n * Nat.pow 2 1073)

def leftBorder (x : Number) : Except Fault Binary64 := do return (halves 15).add (← x.half)

def rightBorder (x : Number) : Except Fault Binary64 := do return (halves 47).sub (← x.half)

/-- The top face lies above its border, the south and the east face below it. -/
def face (x y : Number) : Except Fault Direction := do
  if x.lt (.int 16) then
    return if y.le (.real (← leftBorder x)) then .up else .south
  else
    return if y.le (.real (← rightBorder x)) then .up else .east

def faceAt (x y : Number) : Except Fault (Option Direction) :=
  if contains x y then (face x y).map some else .ok none

/-- The horizontal coordinate is looked at only where an edge straddles the height. -/
def containsAt (x y : Datum) : Except Fault Bool := do
  let y ← Number.ofDatum y
  if edges.any (straddles y) then return contains (← Number.ofDatum x) y else return false

def sideAt (x y : Datum) : Except Fault Direction := do
  let x ← Number.ofDatum x
  let border ← if x.lt (.int 16) then leftBorder x else rightBorder x
  let y ← Number.ofDatum y
  if y.le (.real border) then return .up
  return if x.lt (.int 16) then .south else .east

def pickAt (x y : Datum) : Except Fault (Option Direction) := do
  if ← containsAt x y then return some (← sideAt x y) else return none

end Sprite

end Autotile
