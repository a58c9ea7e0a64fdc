import Autotile.Datum.Basic
import Autotile.Json.Encoding
import Autotile.Numeral.Decimal
import Autotile.Numeral.Integer

/-! Reading JSON. Three names beyond the standard stand for numbers: `NaN`, `Infinity` and
`-Infinity`. A number is an integer unless it has a fraction or an exponent. Of a repeated name
the last value counts, at the first place. -/
namespace Autotile.Json

open Numeral

inductive Trouble where
  | byteOrderMark
  | value
  | name
  | colon
  | comma
  | extra
  | unterminated
  | control
  | escape
  | unicodeEscape
  deriving DecidableEq, Repr

def Trouble.text : Trouble → String
  | .byteOrderMark => "Unexpected UTF-8 BOM (decode using utf-8-sig)"
  | .value => "Expecting value"
  | .name => "Expecting property name enclosed in double quotes"
  | .colon => "Expecting ':' delimiter"
  | .comma => "Expecting ',' delimiter"
  | .extra => "Extra data"
  | .unterminated => "Unterminated string starting at"
  | .control => "Invalid control character at"
  | .escape => "Invalid \\escape"
  | .unicodeEscape => "Invalid \\uXXXX escape"

/-- Why a text was not read; a place is told by the number of characters left. -/
inductive Stop where
  | trouble (what : Trouble) (left : Nat)
  | numeral (fault : NumeralFault)
  | tooDeep
  deriving DecidableEq, Repr

inductive JsonFault where
  | malformed (what : Trouble) (before : List Char)
  | numeral (fault : NumeralFault)
  | tooDeep
  deriving DecidableEq, Repr

/-- Lines and columns count from one, characters from zero; each code point counts. -/
def JsonFault.message : JsonFault → String
  | .malformed what before =>
    let line := before.count '\n' + 1
    let column := (Text.points (before.reverse.takeWhile (· ≠ '\n')).reverse).length + 1
    what.text ++ ": line " ++ toString line ++ " column " ++ toString column ++
      " (char " ++ toString (Text.points before).length ++ ")"
  | .numeral fault => fault.message
  | .tooDeep => "maximum recursion depth exceeded while decoding a JSON array or object"

def fail {α : Type} (what : Trouble) (cs : List Char) : Except Stop α :=
  .error (.trouble what cs.length)

def isSpace (c : Char) : Bool := c = ' ' || c = '\t' || c = '\n' || c = '\r'

def skip (cs : List Char) : List Char := cs.dropWhile isSpace

def hexValue? (c : Char) : Option Nat :=
  if '0' ≤ c && c ≤ '9' then some (c.toNat - '0'.toNat)
  else if 'a' ≤ c && c ≤ 'f' then some (c.toNat - 'a'.toNat + 10)
  else if 'A' ≤ c && c ≤ 'F' then some (c.toNat - 'A'.toNat + 10)
  else none

def hex4? (a b c d : Char) : Option Nat := do
  return (((← hexValue? a) * 16 + (← hexValue? b)) * 16 + (← hexValue? c)) * 16 + (← hexValue? d)

def unescape? : Char → Option Char
  | 'b' => some '\x08'
  | 'f' => some '\x0c'
  | 'n' => some '\n'
  | 'r' => some '\r'
  | 't' => some '\t'
  | '/' => some '/'
  | c => if c = '\\' || c = Text.doubleQuote then some c else none

/-- A character as it stands or as its short escape names it, or a code unit that is escaped. -/
inductive Piece where
  | char (c : Char)
  | unit (n : Nat)
  deriving DecidableEq, Repr

/-- The pieces of a string up to its closing quote, last first; `start` is the number of
characters left at the opening quote. -/
def pieces (start : Nat) : List Piece → List Char → Except Stop (List Piece × List Char)
  | _, [] => .error (.trouble .unterminated start)
  | acc, c :: cs =>
    if c = Text.doubleQuote then .ok (acc, cs)
    else if c = '\\' then
      match cs with
      | [] => .error (.trouble .unterminated start)
      | 'u' :: w :: x :: y :: z :: next :: rest =>
        match hex4? w x y z with
        | some n => pieces start (.unit n :: acc) (next :: rest)
        | none => fail .unicodeEscape cs
      | 'u' :: _ => fail .unicodeEscape cs
      | e :: rest =>
        match unescape? e with
        | some d => pieces start (.char d :: acc) rest
        | none => fail .escape (c :: cs)
    else if c.toNat < 0x20 then fail .control (c :: cs)
    else pieces start (.char c :: acc) cs
termination_by _ cs => cs.length

/-- Surrogates that are escaped one after the other become one character. -/
def joinPieces : List Piece → List Char
  | .unit high :: .unit low :: rest =>
    if Text.isHighSurrogate high && Text.isLowSurrogate low then
      Text.keep (Text.joinSurrogates high low) ++ joinPieces rest
    else Text.keep high ++ joinPieces (.unit low :: rest)
  | .unit n :: rest => Text.keep n ++ joinPieces rest
  | .char c :: rest => c :: joinPieces rest
  | [] => []

def string (cs : List Char) : Except Stop (String × List Char) := do
  let (ps, rest) ← pieces (cs.length + 1) [] cs
  return (String.ofList (joinPieces ps.reverse), rest)

def isDigit (c : Char) : Bool := Text.isAsciiDigit c

def fraction : List Char → List Char × List Char
  | '.' :: cs =>
    let ds := cs.takeWhile isDigit
    if ds.isEmpty then ([], '.' :: cs) else (ds, cs.dropWhile isDigit)
  | cs => ([], cs)

def exponent : List Char → Option Int × List Char
  | e :: cs =>
    if e = 'e' || e = 'E' then
      let (negative, body) := signed cs
      let ds := body.takeWhile isDigit
      if ds.isEmpty then (none, e :: cs)
      else (some (withSign negative (digitsValue ds)), body.dropWhile isDigit)
    else (none, e :: cs)
  | [] => (none, [])

def whole : List Char → Option (List Char × List Char)
  | '0' :: cs => some (['0'], cs)
  | cs =>
    let ds := cs.takeWhile isDigit
    if ds.isEmpty then none else some (ds, cs.dropWhile isDigit)

def number (cs : List Char) : Except Stop (Datum × List Char) :=
  let (negative, body) := match cs with
    | '-' :: rest => (true, rest)
    | _ => (false, cs)
  match whole body with
  | none => fail .value cs
  | some (ds, rest) =>
    let (fs, rest) := fraction rest
    let (power, rest) := exponent rest
    match fs, power with
    | [], none =>
      if digitLimit < ds.length then .error (.numeral (.tooManyDigits ds.length))
      else .ok (.int (withSign negative (digitsValue ds)), rest)
    | _, _ =>
      let d : Decimal := ⟨digitsValue (ds ++ fs), power.getD 0 - fs.length⟩
      .ok (.real (d.toBinary64 negative), rest)

def names : List (List Char × Datum) :=
  [("null".toList, .null), ("true".toList, .flag true), ("false".toList, .flag false),
   ("NaN".toList, .real .nan), ("Infinity".toList, .real (.infinite false)),
   ("-Infinity".toList, .real (.infinite true))]

def scalar (cs : List Char) : Except Stop (Datum × List Char) :=
  match names.find? fun entry => entry.1.isPrefixOf cs with
  | some (name, value) => .ok (value, cs.drop name.length)
  | none => number cs

mutual

/-- Two calls are made for a character at most, so fuel of twice the length suffices; `depth` is
the number of lists and records that may still be opened. -/
def value : Nat → Nat → List Char → Except Stop (Datum × List Char)
  | 0, _, cs => fail .value cs
  | _, _, [] => fail .value []
  | fuel + 1, depth, c :: cs =>
    if c = Text.doubleQuote then do
      let (s, rest) ← string cs
      return (.text s, rest)
    else if c = '[' || c = '\x7b' then
      match depth with
      | 0 => .error .tooDeep
      | depth + 1 =>
        if c = '[' then
          match skip cs with
          | ']' :: rest => .ok (.list [], rest)
          | rest => items fuel depth [] rest
        else
          match skip cs with
          | '\x7d' :: rest => .ok (.record [], rest)
          | rest => entries fuel depth [] rest
    else scalar (c :: cs)

def items : Nat → Nat → List Datum → List Char → Except Stop (Datum × List Char)
  | 0, _, _, cs => fail .value cs
  | fuel + 1, depth, before, cs => do
    let (item, rest) ← value fuel depth cs
    match skip rest with
    | ']' :: rest => return (.list (item :: before).reverse, rest)
    | ',' :: rest => items fuel depth (item :: before) (skip rest)
    | rest => fail .comma rest

def entries : Nat → Nat → List (String × Datum) → List Char → Except Stop (Datum × List Char)
  | 0, _, _, cs => fail .value cs
  | _, _, _, [] => fail .name []
  | fuel + 1, depth, before, c :: cs =>
    if c = Text.doubleQuote then do
      let (name, rest) ← string cs
      match skip rest with
      | ':' :: rest => do
        let (item, rest) ← value fuel depth (skip rest)
        let all := Datum.setEntry name item before
        match skip rest with
        | '\x7d' :: rest => return (.record all, rest)
        | ',' :: rest => entries fuel depth all (skip rest)
        | rest => fail .comma rest
      | rest => fail .colon rest
    else fail .name (c :: cs)

end

def depthLimit : Nat := 985

def readChars (depth : Nat) (cs : List Char) : Except JsonFault Datum :=
  let result : Except Stop Datum := do
    let (value, rest) ← value (2 * cs.length + 2) depth (skip cs)
    if (skip rest).isEmpty then return value else fail .extra (skip rest)
  result.mapError fun
    | .trouble what left => .malformed what (cs.take (cs.length - left))
    | .numeral fault => .numeral fault
    | .tooDeep => .tooDeep

/-- A mark of the byte order belongs to bytes, which are read without it. -/
def read (text : String) : Except JsonFault Datum :=
  if text.toList.head? = some (Char.ofNat 0xFEFF) then .error (.malformed .byteOrderMark [])
  else readChars depthLimit text.toList

end Autotile.Json
