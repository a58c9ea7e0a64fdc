import Autotile.Cell.Key
import Autotile.Datum.Basic
import Autotile.Numeral.Decimal
import Autotile.Text.Quoted

/-! Values as they are named in messages. -/
namespace Autotile.Datum

open Numeral

def kind : Datum → String
  | .null => "NoneType"
  | .flag _ => "bool"
  | .int _ => "int"
  | .real _ => "float"
  | .text _ => "str"
  | .bytes _ => "bytes"
  | .list _ => "list"
  | .record _ => "dict"
  | .cell _ => "IsoCoordinate"
  | .mode _ => "BrushMode"

def modeLabel (m : Mode) : String := "BrushMode." ++ m.name.toUpper

mutual

/-- The written form: text is quoted, everything else is spelled out. -/
def written : Datum → String
  | .null => "None"
  | .flag b => if b then "True" else "False"
  | .int n => toString n
  | .real x => x.text
  | .text s => Text.quote s
  | .bytes bs => Text.quoteBytes bs
  | .list items => "[" ++ ", ".intercalate (writtenItems items) ++ "]"
  | .record entries => "\x7b" ++ ", ".intercalate (writtenEntries entries) ++ "\x7d"
  | .cell c =>
    "IsoCoordinate(s=" ++ toString c.s ++ ", e=" ++ toString c.e ++ ", u=" ++ toString c.u ++ ")"
  | .mode m => "<" ++ modeLabel m ++ ": " ++ Text.quote m.name ++ ">"

def writtenItems : List Datum → List String
  | [] => []
  | item :: items => written item :: writtenItems items

def writtenEntries : List (String × Datum) → List String
  | [] => []
  | (name, value) :: entries => (Text.quote name ++ ": " ++ written value) :: writtenEntries entries

end

/-- The plain form: text stands for itself, a cell for its key. -/
def plain : Datum → String
  | .text s => s
  | .cell c => c.key
  | .mode m => modeLabel m
  | other => other.written

end Autotile.Datum
