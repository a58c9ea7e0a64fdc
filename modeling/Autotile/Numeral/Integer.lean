import Autotile.Text.Blank
import Autotile.Text.DecimalDigit
import Autotile.Text.Fields
import Autotile.Text.Quoted

/-! Integers as decimal text. Neither reading nor writing handles more than 4300 digits.
A numeral may have blanks around it, a sign, decimal digits of any script and single
underscores between digits. -/
namespace Autotile.Numeral

open Text

inductive NumeralFault where
  | notInteger (text : String)
  | tooManyDigits (count : Nat)
  | tooLongToWrite
  deriving DecidableEq, Repr

def digitLimit : Nat := 4300

def NumeralFault.message : NumeralFault → String
  | .notInteger text =>
    "invalid literal for int() with base 10: " ++ String.ofList ((quoteChars text.toList).take 200)
  | .tooManyDigits count =>
    "Exceeds the limit (4300 digits) for integer string conversion: value has " ++ toString count ++
      " digits; use sys.set_int_max_str_digits() to increase the limit"
  | .tooLongToWrite =>
    "Exceeds the limit (4300 digits) for integer string conversion; " ++
      "use sys.set_int_max_str_digits() to increase the limit"

def writeBound : Nat := Nat.pow 10 digitLimit

def Writable (n : Int) : Prop := n.natAbs < writeBound

instance (n : Int) : Decidable (Writable n) := inferInstanceAs (Decidable (_ < _))

/-- A digit of any script becomes the digit of 0 to 9 and a blank a space; nothing else beyond
ASCII belongs to a numeral. -/
def plainChar (c : Char) : Char :=
  if c.toNat < 127 then c
  else if isBlank c then ' '
  else match decimalValue? c with
    | some d => Nat.digitChar d
    | none => '?'

def plainText (cs : List Char) : List Char :=
  if cs.all (·.toNat < 128) then cs else cs.map plainChar

def signed : List Char → Bool × List Char
  | '-' :: cs => (true, cs)
  | '+' :: cs => (false, cs)
  | cs => (false, cs)

def isNumeralChar (c : Char) : Bool := isAsciiDigit c || c = '_'

def digitsValue (cs : List Char) : Nat := Nat.ofDigitChars 10 cs 0

def withSign (negative : Bool) (n : Nat) : Int := if negative then -(n : Int) else n

/-- Reads a numeral; the fault of anything else names the text it was given. -/
def readPlain (given : String) (cs : List Char) : Except NumeralFault Int :=
  let body := signed (cs.dropWhile isPlainBlank)
  let run := body.2.takeWhile isNumeralChar
  let digits := run.filter (· ≠ '_')
  if (fields '_' run).any (·.isEmpty) then .error (.notInteger given)
  else if digitLimit < digits.length then .error (.tooManyDigits digits.length)
  else if (body.2.dropWhile isNumeralChar).all isPlainBlank then
    .ok (withSign body.1 (digitsValue digits))
  else .error (.notInteger given)

def readInt (text : String) : Except NumeralFault Int := readPlain text (plainText text.toList)

def readDigits (cs : List Char) : Except NumeralFault Nat :=
  if digitLimit < cs.length then .error (.tooManyDigits cs.length)
  else .ok (digitsValue (cs.map plainChar))

end Autotile.Numeral
