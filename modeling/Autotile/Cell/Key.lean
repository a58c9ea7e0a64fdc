import Autotile.Cell.Basic
import Autotile.Numeral.Integer

/-! Cells as text keys: three integers separated by commas. A key may be spelled with blanks,
signs and leading zeros around ASCII digits; each cell has one canonical key. -/
namespace Autotile

open Text Numeral

/-- Why a text is no key. The first three are faults of its form; a numeral may fail even in a
well-formed key. -/
inductive KeyFault where
  | notText (kind : String)
  | partCount (key : String)
  | partForm (key : String)
  | numeral (fault : NumeralFault)
  deriving DecidableEq, Repr

def KeyFault.isForm : KeyFault → Bool
  | .numeral _ => false
  | _ => true

def KeyFault.message : KeyFault → String
  | .notText kind => "Coordinate key must be a string, got " ++ kind
  | .partCount key => "Coordinate key '" ++ key ++ "' must have exactly three parts"
  | .partForm key => "Coordinate key '" ++ key ++ "' contains a non-integer part"
  | .numeral fault => fault.message

namespace Cell

def key (c : Cell) : String := toString c.s ++ "," ++ toString c.e ++ "," ++ toString c.u

def Keyed (c : Cell) : Prop := Writable c.s ∧ Writable c.e ∧ Writable c.u

instance (c : Cell) : Decidable c.Keyed := inferInstanceAs (Decidable (_ ∧ _ ∧ _))

def key? (c : Cell) : Except NumeralFault String :=
  if c.Keyed then .ok c.key else .error .tooLongToWrite

/-- Blanks, an optional sign, ASCII digits, blanks. -/
def isKeyPart (cs : List Char) : Bool :=
  let body := (signed (cs.dropWhile isBlank)).2
  !(body.takeWhile isAsciiDigit).isEmpty && (body.dropWhile isAsciiDigit).all isBlank

def ofKey (key : String) : Except KeyFault Cell :=
  match fields ',' key.toList with
  | [s, e, u] =>
    if isKeyPart s && isKeyPart e && isKeyPart u then do
      let s ← (readInt (String.ofList s)).mapError .numeral
      let e ← (readInt (String.ofList e)).mapError .numeral
      let u ← (readInt (String.ofList u)).mapError .numeral
      return ⟨s, e, u⟩
    else .error (.partForm key)
  | _ => .error (.partCount key)

end Cell

end Autotile
