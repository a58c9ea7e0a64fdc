/-! Binary floating-point numbers of 53 significant bits, in exact integer arithmetic.
Every finite number is a whole multiple of the least positive one, the *unit* 2^-1074, so a
number is a sign and a count of units. An operation computes exactly and rounds once, to the
nearest number and at a tie to the one whose last bit is zero. -/
namespace Autotile.Numeral

inductive Binary64 where
  | finite (negative : Bool) (units : Nat)
  | infinite (negative : Bool)
  | nan
  deriving DecidableEq, Repr, Inhabited

namespace Binary64

def one : Nat := Nat.pow 2 1074

def overflow : Nat := Nat.pow 2 2098

/-- The low bits of an integer that do not fit into 53 significant ones. -/
def excess (n : Nat) : Nat := n.log2 + 1 - 53

def roundEven (num den : Nat) : Nat :=
  let q := num / den
  let r := num % den
  if den < 2 * r || (2 * r = den && q % 2 = 1) then q + 1 else q

/-- The quotient rounded to an integer of 53 significant bits. -/
def roundUnits (num den : Nat) : Nat :=
  let step := Nat.pow 2 (excess (num / den))
  roundEven num (den * step) * step

def ofUnits (negative : Bool) (units : Nat) : Binary64 :=
  if units < overflow then .finite negative units else .infinite negative

def nearest (negative : Bool) (num den : Nat) : Binary64 :=
  ofUnits negative (roundUnits num den)

def zero : Binary64 := .finite false 0

def ofInt (n : Int) : Binary64 := nearest (n < 0) (n.natAbs * one) 1

/-- The number nearest to a quotient of integers; the divisor is positive. -/
def ofRatio (num : Int) (den : Nat) : Binary64 := nearest (num < 0) (num.natAbs * one) den

def isFinite : Binary64 → Bool
  | .finite .. => true
  | _ => false

def signedUnits (negative : Bool) (units : Nat) : Int := if negative then -(units : Int) else units

def ofSignedUnits (n : Int) : Binary64 := nearest (n < 0) n.natAbs 1

def neg : Binary64 → Binary64
  | .finite s u => .finite (!s) u
  | .infinite s => .infinite (!s)
  | .nan => .nan

def add : Binary64 → Binary64 → Binary64
  | .nan, _ | _, .nan => .nan
  | .infinite s, .infinite t => if s = t then .infinite s else .nan
  | .infinite s, .finite .. => .infinite s
  | .finite .., .infinite t => .infinite t
  | .finite true 0, .finite true 0 => .finite true 0
  | .finite s u, .finite t v => ofSignedUnits (signedUnits s u + signedUnits t v)

def sub (x y : Binary64) : Binary64 := add x (neg y)

def mul : Binary64 → Binary64 → Binary64
  | .nan, _ | _, .nan => .nan
  | .infinite s, .infinite t => .infinite (s != t)
  | .infinite s, .finite t v => if v = 0 then .nan else .infinite (s != t)
  | .finite s u, .infinite t => if u = 0 then .nan else .infinite (s != t)
  | .finite s u, .finite t v => nearest (s != t) (u * v) one

def divNat : Binary64 → Nat → Binary64
  | .finite s u, d => nearest s u d
  | .infinite s, _ => .infinite s
  | .nan, _ => .nan

/-- Where a number stands among all: the infinities enclose the finite numbers, and the two
zeros stand together. NaN stands nowhere. -/
inductive Place where
  | below
  | at (units : Int)
  | above
  deriving DecidableEq, Repr

def Place.lt : Place → Place → Bool
  | .below, .below => false
  | .below, _ => true
  | .at a, .at b => a < b
  | .at _, .above => true
  | _, _ => false

def place? : Binary64 → Option Place
  | .finite s u => some (.at (signedUnits s u))
  | .infinite true => some .below
  | .infinite false => some .above
  | .nan => none

/-- A comparison with NaN is false. -/
def placed (rel : Place → Place → Bool) (p q : Option Place) : Bool :=
  match p, q with
  | some a, some b => rel a b
  | _, _ => false

def lt (x y : Binary64) : Bool := placed Place.lt x.place? y.place?

def truncate (negative : Bool) (units : Nat) : Int := signedUnits negative (units / one)

def toBits : Binary64 → Nat
  | .finite s u =>
    (if s then Nat.pow 2 63 else 0) +
      if u < Nat.pow 2 52 then u
      else
        let shift := u.log2 - 52
        (shift + 1) * Nat.pow 2 52 + (u / Nat.pow 2 shift - Nat.pow 2 52)
  | .infinite s => (if s then Nat.pow 2 63 else 0) + 2047 * Nat.pow 2 52
  | .nan => 2047 * Nat.pow 2 52 + Nat.pow 2 51

end Binary64

end Autotile.Numeral
