import Autotile.Cell.Direction

/-! Rules of fragment textures. A rule says for which type and slot a texture is drawn and what
it requires of the cells around the tile; the more specific its requirements, the higher it
scores. -/
namespace Autotile

def familyMark : Char := '_'

def family (type : String) : String := String.ofList (type.toList.takeWhile (· ≠ familyMark))

/-- An empty cell belongs to no family. -/
def sameFamily : Option String → Option String → Bool
  | some a, some b => family a = family b
  | _, _ => false

inductive Requirement where
  | any
  | empty
  | occupied
  | sameFamily
  | otherFamily
  | exactly (type : String)
  deriving DecidableEq, Repr

namespace Requirement

def weight : Requirement → Nat
  | .any => 0
  | .empty | .occupied => 2
  | .sameFamily | .otherFamily => 3
  | .exactly _ => 6

def symbol : Requirement → String
  | .any => "*"
  | .empty => "0"
  | .occupied => "1"
  | .sameFamily => "="
  | .otherFamily => "!"
  | .exactly type => type

def symbolic : List Requirement := [.any, .empty, .occupied, .sameFamily, .otherFamily]

def ofSymbol? (text : String) : Option Requirement := symbolic.find? (·.symbol = text)

def met (own : String) (content : Option String) : Requirement → Bool
  | .any => true
  | .empty => content.isNone
  | .occupied => content.isSome
  | .sameFamily => Autotile.sameFamily content (some own)
  | .otherFamily => !Autotile.sameFamily content (some own)
  | .exactly type => content = some type

end Requirement

structure Constraint where
  path : Path
  requirement : Requirement := .any
  deriving DecidableEq, Repr

namespace Constraint

def offset (c : Constraint) : Cell := c.path.offset

def weight (c : Constraint) : Nat := c.requirement.weight

def isCompound (c : Constraint) : Bool := 1 < c.path.length

def met (own : String) (content : Option String) (c : Constraint) : Bool :=
  c.requirement.met own content

def token (c : Constraint) : String :=
  String.ofList c.path.code ++ ":" ++ c.requirement.symbol

def isUp (c : Constraint) : Bool := c.path = [.up]

end Constraint

/-- Every `modulus`th elevation, counted from one. -/
structure ElevationBand where
  modulus : Nat
  index : Nat
  deriving DecidableEq, Repr

/-- Elevations below zero continue the pattern downwards. -/
def ElevationBand.contains (b : ElevationBand) (u : Int) : Bool :=
  u % (b.modulus : Int) = (b.index : Int) - 1

structure Rule where
  name : String
  type : String
  slot : String
  constraints : List Constraint
  elevation : Option ElevationBand := none
  score : Nat := 0
  deriving DecidableEq, Repr

namespace Rule

def family (r : Rule) : String := Autotile.family r.type

def constraintFor (r : Rule) (d : Direction) : Constraint :=
  (r.constraints.find? (·.path = [d])).getD { path := [d] }

def admitsElevation (r : Rule) (u : Int) : Bool :=
  match r.elevation with
  | none => true
  | some band => band.contains u

/-- Offsets from an edited cell to the tiles whose rules may look at it. -/
def dependencies (r : Rule) : List Cell :=
  (r.constraints.filter (·.requirement ≠ .any)).map fun c => -c.offset

end Rule

end Autotile
