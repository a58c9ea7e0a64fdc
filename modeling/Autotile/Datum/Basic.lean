import Autotile.Cell.Direction
import Autotile.Numeral.Binary64
import Autotile.Text.CodePoint

/-! Values that reach the editor from outside: map files, catalogues and the payloads of
requests. A record keeps its entries in order and holds no name twice. -/
namespace Autotile

inductive Mode where
  | tile | object | remove
  deriving DecidableEq, Repr

namespace Mode

def all : List Mode := [.tile, .object, .remove]

def name : Mode → String
  | .tile => "tile"
  | .object => "object"
  | .remove => "remove"

def ofName? (text : String) : Option Mode := all.find? (·.name = text)

@[simp] theorem ofName?_name (m : Mode) : ofName? m.name = some m := by cases m <;> decide

end Mode

inductive Datum where
  | null
  | flag (b : Bool)
  | int (n : Int)
  | real (x : Numeral.Binary64)
  | text (s : String)
  | bytes (bs : List UInt8)
  | list (items : List Datum)
  | record (entries : List (String × Datum))
  | cell (c : Cell)
  | mode (m : Mode)
  deriving Inhabited

namespace Datum

def isBlank : Datum → Bool
  | .null => true
  | .flag b => !b
  | .int n => n = 0
  | .real (.finite _ 0) => true
  | .text s => s.isEmpty
  | .bytes bs => bs.isEmpty
  | .list items => items.isEmpty
  | .record entries => entries.isEmpty
  | _ => false

def isNull : Datum → Bool
  | .null => true
  | _ => false

/-- Lists and records are no keys: they cannot be looked up. -/
def isKey : Datum → Bool
  | .list _ | .record _ => false
  | _ => true

def entry (name : String) (entries : List (String × Datum)) : Datum :=
  (entries.lookup name).getD .null

/-- The members of a value that can be taken apart: code points, bytes, items or names. -/
def members? : Datum → Option (List Datum)
  | .text s => some ((Text.points s.toList).map fun n => .text (String.ofList (Text.keep n)))
  | .bytes bs => some (bs.map fun b => .int b.toNat)
  | .list items => some items
  | .record entries => some (entries.map fun entry => .text entry.1)
  | _ => none

/-- Setting a name again replaces its value and keeps its place. -/
def setEntry {α : Type} (name : String) (value : α) : List (String × α) → List (String × α)
  | [] => [(name, value)]
  | entry :: rest =>
    if entry.1 = name then (name, value) :: rest else entry :: setEntry name value rest

end Datum

end Autotile
