import Autotile.Datum.Written
import Autotile.Text.CodePoint

/-! Writing JSON: names in ascending order, a space after each comma and colon, and everything
beyond ASCII as escapes of 16-bit units. -/
namespace Autotile.Json

def unitEscape (n : Nat) : List Char := '\\' :: 'u' :: Text.hexDigits 4 n

def escape (n : Nat) : List Char :=
  let c := Char.ofNat n
  if c = Text.doubleQuote || c = '\\' then ['\\', c]
  else if c = '\n' then ['\\', 'n']
  else if c = '\r' then ['\\', 'r']
  else if c = '\t' then ['\\', 't']
  else if c = '\x08' then ['\\', 'b']
  else if c = '\x0c' then ['\\', 'f']
  else if 0x20 ≤ n && n < 0x7F then [c]
  else if n < 0x10000 then unitEscape n
  else
    let n := n - 0x10000
    unitEscape (0xD800 + n / 0x400) ++ unitEscape (0xDC00 + n % 0x400)

def writeText (s : String) : String :=
  String.ofList (Text.doubleQuote :: (Text.points s.toList).flatMap escape ++ [Text.doubleQuote])

def writeReal : Numeral.Binary64 → String
  | .infinite s => if s then "-Infinity" else "Infinity"
  | .nan => "NaN"
  | x => x.text

mutual

def write : Datum → String
  | .null => "null"
  | .flag b => if b then "true" else "false"
  | .int n => toString n
  | .real x => writeReal x
  | .text s => writeText s
  | .bytes bs => writeText (Text.quoteBytes bs)
  | .list items => "[" ++ ", ".intercalate (writeItems items) ++ "]"
  | .record entries =>
    let written := (writeEntries entries).mergeSort fun a b => a.1 ≤ b.1
    "\x7b" ++ ", ".intercalate (written.map fun e => writeText e.1 ++ ": " ++ e.2) ++ "\x7d"
  | .cell c => writeText c.key
  | .mode m => writeText m.name

def writeItems : List Datum → List String
  | [] => []
  | item :: items => write item :: writeItems items

def writeEntries : List (String × Datum) → List (String × String)
  | [] => []
  | (name, value) :: entries => (name, write value) :: writeEntries entries

end

end Autotile.Json
