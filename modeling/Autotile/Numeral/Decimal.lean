import Autotile.Numeral.Binary64

/-! Decimal text of binary floating-point numbers. A number is written with the fewest digits
that read back to it, and of those with the nearest; reading takes the nearest number. -/
namespace Autotile.Numeral

open Binary64

structure Decimal where
  digits : Nat
  exponent : Int
  deriving DecidableEq, Repr

def digitCount (n : Nat) : Nat := (Nat.toDigits 10 n).length

/-- The nearest number to a decimal. Beyond 400 places on either side the answer is an
infinity or zero. -/
def Decimal.toBinary64 (negative : Bool) (d : Decimal) : Binary64 :=
  let top := (digitCount d.digits : Int) + d.exponent
  if d.digits = 0 || top < -400 then .finite negative 0
  else if 400 < top then .infinite negative
  else if 0 ≤ d.exponent then nearest negative (d.digits * Nat.pow 10 d.exponent.toNat * one) 1
  else nearest negative (d.digits * one) (Nat.pow 10 (-d.exponent).toNat)

/-- The reals that round to a positive number, in quarter units: between the two halfway points
to its neighbours, which belong to them when the last bit is zero. -/
structure Basin where
  low : Nat
  high : Nat
  closed : Bool

def basin (units : Nat) : Basin :=
  let shift := units.log2 - 52
  let ulp := Nat.pow 2 shift
  let narrow := units = Nat.pow 2 units.log2 && 0 < shift
  { low := 4 * units - (if narrow then ulp else 2 * ulp)
    high := 4 * units + 2 * ulp
    closed := units / ulp % 2 = 0 }

def Decimal.quarters (d : Decimal) : Nat × Nat :=
  if 0 ≤ d.exponent then (d.digits * Nat.pow 10 d.exponent.toNat * (4 * one), 1)
  else (d.digits * (4 * one), Nat.pow 10 (-d.exponent).toNat)

def Basin.contains (b : Basin) (d : Decimal) : Bool :=
  let (num, den) := d.quarters
  if b.closed then b.low * den ≤ num && num ≤ b.high * den
  else b.low * den < num && num < b.high * den

def scale (units : Nat) : Int := (digitCount (units * Nat.pow 10 330 / one) : Int) - 330

/-- The two multiples of `10 ^ exponent` around the number: the lower, and whether the number is
nearer to the upper one, a tie going to the even. -/
def around (units : Nat) (exponent : Int) : Nat × Bool :=
  let num := if 0 ≤ exponent then units else units * Nat.pow 10 (-exponent).toNat
  let den := if 0 ≤ exponent then one * Nat.pow 10 exponent.toNat else one
  let q := num / den
  let r := num % den
  (q, den < 2 * r || (2 * r = den && q % 2 = 1))

def onGrid (units : Nat) (exponent : Int) : Option Decimal :=
  let b := basin units
  let (q, up) := around units exponent
  let lower : Decimal := ⟨q, exponent⟩
  let upper : Decimal := ⟨q + 1, exponent⟩
  match b.contains lower, b.contains upper with
  | true, true => some (if up then upper else lower)
  | true, false => some lower
  | false, true => some upper
  | false, false => none

def Decimal.strip : Nat → Decimal → Decimal
  | 0, d => d
  | n + 1, d =>
    if d.digits ≠ 0 && d.digits % 10 = 0 then strip n ⟨d.digits / 10, d.exponent + 1⟩ else d

/-- The shortest decimal of a positive number; seventeen digits always suffice. -/
def shortest (units : Nat) : Decimal :=
  let k := scale units
  let found := (List.range 17).findSome? fun n => onGrid units (k - (n + 1 : Nat))
  (found.getD ⟨(around units (k - 17)).1, k - 17⟩).strip 20

/-- Numbers from 10^-4 to below 10^16 are written positionally and always show a fraction;
others with a signed exponent of at least two digits. -/
def Decimal.layout (d : Decimal) : List Char :=
  let ds := Nat.toDigits 10 d.digits
  let point : Int := ds.length + d.exponent
  if -4 < point && point ≤ 16 then
    if point ≤ 0 then '0' :: '.' :: (List.replicate (-point).toNat '0' ++ ds)
    else if point < ds.length then ds.take point.toNat ++ '.' :: ds.drop point.toNat
    else ds ++ List.replicate d.exponent.toNat '0' ++ ['.', '0']
  else
    let lead := ds.take 1 ++ (if ds.length = 1 then [] else '.' :: ds.drop 1)
    let power := point - 1
    let es := Nat.toDigits 10 power.natAbs
    lead ++ 'e' :: (if power < 0 then '-' else '+') :: (List.replicate (2 - es.length) '0' ++ es)

def Binary64.text : Binary64 → String
  | .finite s u =>
    String.ofList ((if s then ['-'] else []) ++
      if u = 0 then ['0', '.', '0'] else (shortest u).layout)
  | .infinite s => if s then "-inf" else "inf"
  | .nan => "nan"

end Autotile.Numeral
