import Autotile.Datum.Written
import Autotile.Rule.Basic
import Autotile.Sprite

/-! Texture identifiers. A texture carries its rule in its name,

    <type>-<slot>-<constraints>[-<modulus>:<index>][.png]

where the constraints are separated by commas. A constraint is a direction letter glued to its
requirement, or a path of direction letters, a colon and the requirement. Directions that are
not named require nothing. -/
namespace Autotile

open Text Numeral

inductive RuleFault where
  | notText (value : Datum)
  | badForm (name : String)
  | badType (name given : String)
  | badSlot (name given : String)
  | noConstraints (name : String)
  | badPath (name token : String)
  | badDirection (name token : String)
  | badRequirement (name token : String)
  | repeated (name path : String)
  | badElevation (name band : String)
  | zeroModulus (name : String)

def RuleFault.message : RuleFault → String
  | .notText value => "Texture identifier must be a non-empty string: " ++ value.written
  | .badForm name => "'" ++ name ++ "': expected <type>-<slot>-<constraints>[-<mod>:<rem>]"
  | .badType name given => "'" ++ name ++ "': invalid type '" ++ given ++ "'"
  | .badSlot name given => "'" ++ name ++ "': unknown fragment slot '" ++ given ++ "'"
  | .noConstraints name => "'" ++ name ++ "': empty constraint list"
  | .badPath name token => "'" ++ name ++ "': invalid direction path in '" ++ token ++ "'"
  | .badDirection name token => "'" ++ name ++ "': invalid direction in '" ++ token ++ "'"
  | .badRequirement name token => "'" ++ name ++ "': invalid rule in '" ++ token ++ "'"
  | .repeated name path => "'" ++ name ++ "': direction '" ++ path ++ "' given more than once"
  | .badElevation name band => "'" ++ name ++ "': invalid elevation constraint '" ++ band ++ "'"
  | .zeroModulus name => "'" ++ name ++ "': elevation modulus must be positive"

/-- Why an identifier was not read: it is malformed, or it got as far as a letter or a numeral
that could not be read. -/
inductive IdentifierFault where
  | malformed (fault : RuleFault)
  | code (text : String)
  | numeral (fault : NumeralFault)

namespace Rule

def suffix : String := ".png"

def stripSuffix (cs : List Char) : List Char :=
  if suffix.toList.isSuffixOf cs then cs.take (cs.length - suffix.length) else cs

def parts (name : String) : List (List Char) := fields '-' (stripSuffix name.toList)

def looksLikeIdentifier (name : String) : Bool := 3 ≤ (parts name).length

def isTypeChar (c : Char) : Bool := ('a' ≤ c && c ≤ 'z') || isAsciiDigit c || c = '_'

/-- A non-empty word of a class of characters, which one line end may close. -/
def isWord (p : Char → Bool) (cs : List Char) : Bool := !(chomp cs).isEmpty && (chomp cs).all p

def isType (cs : List Char) : Bool := isWord isTypeChar cs

def isPath (cs : List Char) : Bool := isWord (fun c => (Direction.ofCode? c).isSome) cs

def readPath : List Char → Except IdentifierFault Path
  | [] => .ok []
  | c :: cs =>
    match Direction.ofCode? c with
    | some d => (readPath cs).map (d :: ·)
    | none => .error (.code (String.singleton c))

def malformed {α : Type} (fault : RuleFault) : Except IdentifierFault α := .error (.malformed fault)

def readConstraint (name : String) (token : List Char) : Except IdentifierFault Constraint := do
  let text := String.ofList token
  let (letters, rest) ← match cut ':' token with
    | (letters, some rest) =>
      if isPath letters then pure (letters, rest) else malformed (.badPath name text)
    | (_, none) =>
      if isPath (token.take 1) then pure (token.take 1, token.drop 1)
      else malformed (.badDirection name text)
  let path ← readPath letters
  match Requirement.ofSymbol? (String.ofList rest) with
  | some requirement => return { path, requirement }
  | none =>
    if isType rest then return { path, requirement := .exactly (String.ofList rest) }
    else malformed (.badRequirement name text)

def readConstraints (name : String) :
    List Constraint → List (List Char) → Except IdentifierFault (List Constraint)
  | given, [] => .ok given
  | given, token :: tokens => do
    let c ← readConstraint name token
    if given.any (·.path = c.path) then malformed (.repeated name (String.ofList c.path.code))
    else readConstraints name (given ++ [c]) tokens

/-- The six directions first, whether given or not, then the compound paths as given. -/
def arrange (given : List Constraint) : List Constraint :=
  Direction.all.map (fun d => (given.find? (·.path = [d])).getD { path := [d] }) ++
    given.filter (·.isCompound)

def isDecimal (cs : List Char) : Bool := !cs.isEmpty && cs.all fun c => (decimalValue? c).isSome

def readElevation (name : String) (band : List Char) : Except IdentifierFault ElevationBand := do
  match fields ':' (chomp band) with
  | [m, i] =>
    if isDecimal m && isDecimal i then
      let modulus ← (readDigits m).mapError .numeral
      let index ← (readDigits i).mapError .numeral
      if modulus = 0 then malformed (.zeroModulus name) else return { modulus, index }
    else malformed (.badElevation name (String.ofList band))
  | _ => malformed (.badElevation name (String.ofList band))

def readParts (name : String) (type slot constraints : List Char) (band : Option (List Char)) :
    Except IdentifierFault Rule := do
  if !isType type then malformed (.badType name (String.ofList type))
  if !Sprite.slots.contains (String.ofList slot) then malformed (.badSlot name (String.ofList slot))
  if constraints.isEmpty then malformed (.noConstraints name)
  let given ← readConstraints name [] (fields ',' constraints)
  let elevation ← band.mapM (readElevation name)
  let constraints := arrange given
  return {
    name, constraints, elevation
    type := String.ofList type
    slot := String.ofList slot
    score := constraints.foldl (fun score c => score + c.weight) 0 }

def ofName (name : String) : Except IdentifierFault Rule :=
  if name.isEmpty then malformed (.notText (.text name))
  else
    match parts name with
    | [type, slot, constraints] => readParts name type slot constraints none
    | [type, slot, constraints, band] => readParts name type slot constraints (some band)
    | _ => malformed (.badForm name)

def ofDatum : Datum → Except IdentifierFault Rule
  | .text name => ofName name
  | other => malformed (.notText other)

end Rule

end Autotile
