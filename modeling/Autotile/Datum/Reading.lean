import Autotile.Fault

/-! Reading out of a value what an edit needs: a cell, a path, a type, a brush mode. -/
namespace Autotile.Datum

open Numeral

/-- One coordinate of the cell `given`. A number loses its fraction, a numeral is read. -/
def toCoordinate (given : Datum) : Datum → Except Fault Int
  | .int n => .ok n
  | .flag b => .ok (if b then 1 else 0)
  | .real (.finite s n) => .ok (Binary64.truncate s n)
  | .real (.infinite _) => .error .infiniteInteger
  | .text s => (readInt s).mapError fun _ => .notCell given
  | .bytes bs =>
    (readPlain "" (bs.map fun b => Char.ofNat b.toNat)).mapError fun _ => .notCell given
  | _ => .error (.notCell given)

def toCell : Datum → Except Fault Cell
  | .cell c => .ok c
  | given =>
    match given.members? with
    | some [s, e, u] => do
      let s ← toCoordinate given s
      let e ← toCoordinate given e
      let u ← toCoordinate given u
      return ⟨s, e, u⟩
    | _ => .error (.notCell given)

def toKeyedCell (given : Datum) : Except Fault Cell :=
  match given with
  | .text key => (Cell.ofKey key).mapError .key
  | _ => .error (.key (.notText given.kind))

def toDirection (given : Datum) : Except Fault Direction :=
  match given with
  | .text name =>
    match Direction.ofName? name with
    | some d => .ok d
    | none => .error (.notDirection given)
  | _ => .error (.notDirection given)

def toLetteredDirection (given : Datum) : Except Fault Direction :=
  match given with
  | .text code =>
    match code.toList with
    | [c] =>
      match Direction.ofCode? c with
      | some d => .ok d
      | none => .error (.directionCode code)
    | _ => .error (.directionCode code)
  | _ => .error (if given.isKey then .directionCode given.plain else .wrongKind)

/-- A list of the directions of a path, or one direction. -/
def toPath (given : Datum) : Except Fault Path :=
  match given with
  | .list names => names.mapM toDirection
  | _ => given.toDirection.map ([·])

def toTypeName (given : Datum) : Except Fault String :=
  match given with
  | .text type => if type.isEmpty then .error (.notTypeName given) else .ok type
  | _ => .error (.notTypeName given)

def toNames (given : Datum) : Except Fault (List String) :=
  match given.members? with
  | some members => .ok (members.map plain)
  | none => .error .wrongKind

def toPair (given : Datum) : Except Fault (Datum × Datum) :=
  match given.members? with
  | some [x, y] => .ok (x, y)
  | some [] => .error (.tooFewMembers 0)
  | some [_] => .error (.tooFewMembers 1)
  | some _ => .error .tooManyMembers
  | none => .error .wrongKind

def toMode (given : Datum) : Except Fault Mode :=
  match given with
  | .mode m => .ok m
  | .text name =>
    match Mode.ofName? name with
    | some m => .ok m
    | none => .error (.notMode given)
  | _ => .error (.notMode given)

/-- The whole number that a value equals, if any. -/
def toWhole? : Datum → Option Int
  | .int n => some n
  | .flag b => some (if b then 1 else 0)
  | .real (.finite s n) => if n % Binary64.one = 0 then some (Binary64.truncate s n) else none
  | _ => none

end Autotile.Datum
