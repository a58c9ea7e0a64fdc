import Autotile.Cell.Basic

/-! The six unit steps between cells, and paths made of them. -/
namespace Autotile

inductive Direction where
  | up | north | east | south | west | down
  deriving DecidableEq, Repr

namespace Direction

def all : List Direction := [.up, .north, .east, .south, .west, .down]

@[simp] theorem mem_all (d : Direction) : d ∈ all := by cases d <;> decide

def name : Direction → String
  | .up => "up"
  | .north => "north"
  | .east => "east"
  | .south => "south"
  | .west => "west"
  | .down => "down"

def code : Direction → Char
  | .up => 'u'
  | .north => 'n'
  | .east => 'e'
  | .south => 's'
  | .west => 'w'
  | .down => 'd'

def offset : Direction → Cell
  | .up => ⟨0, 0, 1⟩
  | .north => ⟨-1, 0, 0⟩
  | .east => ⟨0, 1, 0⟩
  | .south => ⟨1, 0, 0⟩
  | .west => ⟨0, -1, 0⟩
  | .down => ⟨0, 0, -1⟩

def opposite : Direction → Direction
  | .up => .down
  | .north => .south
  | .east => .west
  | .south => .north
  | .west => .east
  | .down => .up

def ofName? (text : String) : Option Direction := all.find? (·.name = text)

def ofCode? (c : Char) : Option Direction := all.find? (·.code = c)

@[simp] theorem ofName?_name (d : Direction) : ofName? d.name = some d := by cases d <;> decide

@[simp] theorem ofCode?_code (d : Direction) : ofCode? d.code = some d := by cases d <;> decide

theorem code_of_ofCode? {c : Char} {d : Direction} (h : ofCode? c = some d) : d.code = c := by
  have := List.find?_some h
  simpa using this

@[simp] theorem offset_opposite (d : Direction) : d.opposite.offset = -d.offset := by
  cases d <;> decide

end Direction

abbrev Path := List Direction

namespace Path

def offset (p : Path) : Cell := p.foldl (fun c d => c + d.offset) Cell.origin

def code (p : Path) : List Char := p.map Direction.code

end Path

def Cell.move (c : Cell) (p : Path) : Cell := c + p.offset

end Autotile
