import Autotile.Json.Reader
import Autotile.Layer
import Autotile.Rule.Identifier

/-! Everything that can go wrong. -/
namespace Autotile

open Numeral Json

inductive Part where
  | position | tileType | fragments | object
  deriving DecidableEq, Repr

def Part.name : Part → String
  | .position => "MapPosition"
  | .tileType => "TileType"
  | .fragments => "TileFragments"
  | .object => "MapObject"

inductive Fault where
  | key (fault : KeyFault)
  | identifier (fault : RuleFault)
  | directionCode (text : String)
  | numeral (fault : NumeralFault)
  | json (fault : JsonFault)
  | decode (fault : DecodeFault)
  | notCell (value : Datum)
  | notTypeName (value : Datum)
  | notDirection (value : Datum)
  | notMode (value : Datum)
  | brushNeedsType (mode : Mode)
  | mapNotRecord
  | sectionNotRecord (layer : Layer)
  | framesNotRecord
  | handlerFailed (label : String)
  /-- A pair was expected. -/
  | tooFewMembers (count : Nat)
  | tooManyMembers
  | noEntity (key : Datum)
  | noPart (part : Part)
  | noMap
  | noBrush
  | quotientTooLarge
  | integerTooLarge
  | infiniteInteger
  /-- A value of a kind that the operation is not made for. -/
  | wrongKind
  /-- A catalogue that is no record. -/
  | notRecord
  | tooDeep

namespace Fault

def ofIdentifier : IdentifierFault → Fault
  | .malformed fault => .identifier fault
  | .code text => .directionCode text
  | .numeral fault => .numeral fault

def message : Fault → String
  | .key fault => fault.message
  | .identifier fault => fault.message
  | .directionCode text => "Unknown direction code '" ++ text ++ "'"
  | .numeral fault => fault.message
  | .json fault => fault.message
  | .decode fault => fault.message
  | .notCell value => "Expected an IsoCoordinate or (s, e, u), got " ++ value.written
  | .notTypeName value => "Type name must be a non-empty string, got " ++ value.written
  | .notDirection value => value.written ++ " is not a valid Direction"
  | .notMode value => value.written ++ " is not a valid BrushMode"
  | .brushNeedsType mode => mode.name ++ " brush needs a type name"
  | .mapNotRecord => "Map data must be a mapping with 'tiles' and 'objects'"
  | .sectionNotRecord layer => "Map data '" ++ layer.sectionName ++ "' must be a mapping"
  | .framesNotRecord => "Atlas 'frames' must be a mapping of frame names"
  | .handlerFailed label => label
  | .tooFewMembers count =>
    "not enough values to unpack (expected 2, got " ++ toString count ++ ")"
  | .tooManyMembers => "too many values to unpack (expected 2)"
  | .noEntity id => id.written
  | .noPart part => part.name
  | .noMap => "MapGrid singleton not found"
  | .noBrush => "no brush is at hand"
  | .quotientTooLarge => "integer division result too large for a float"
  | .integerTooLarge => "int too large to convert to float"
  | .infiniteInteger => "cannot convert float infinity to integer"
  | .wrongKind => "unsupported kind of value"
  | .notRecord => "value has no entries"
  | .tooDeep => "maximum recursion depth exceeded"

/-- The fault lies in a value that was given, not in the state or in the kind of a value. -/
def isValueFault : Fault → Bool
  | .json .tooDeep => false
  | .noEntity _ | .noPart _ | .noMap | .noBrush => false
  | .quotientTooLarge | .integerTooLarge | .infiniteInteger => false
  | .wrongKind | .notRecord | .tooDeep => false
  | _ => true

end Fault

end Autotile
