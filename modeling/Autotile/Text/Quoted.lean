import Autotile.Text.CodePoint
import Autotile.Text.Visible

/-! Text as it stands in a message: between quotes, with a backslash form for every character
that would not show. The quote is single unless the text holds a single quote and no double one. -/
namespace Autotile.Text

def hexDigits (width n : Nat) : List Char :=
  let ds := Nat.toDigits 16 n
  List.replicate (width - ds.length) '0' ++ ds

def singleQuote : Char := Char.ofNat 39
def doubleQuote : Char := Char.ofNat 34

def chooseQuote (cs : List Char) : Char :=
  if cs.contains singleQuote && !cs.contains doubleQuote then doubleQuote else singleQuote

def hexForm (n : Nat) : List Char :=
  if n < 0x100 then '\\' :: 'x' :: hexDigits 2 n
  else if n < 0x10000 then '\\' :: 'u' :: hexDigits 4 n
  else '\\' :: 'U' :: hexDigits 8 n

/-- A surrogate is no character, so it does not show. -/
def escapePoint (quote : Char) (n : Nat) : List Char :=
  let c := Char.ofNat n
  if c = quote || c = '\\' then ['\\', c]
  else if c = '\t' then ['\\', 't']
  else if c = '\n' then ['\\', 'n']
  else if c = '\r' then ['\\', 'r']
  else if isVisible c then [c]
  else hexForm n

def quoteChars (cs : List Char) : List Char :=
  let q := chooseQuote cs
  q :: (points cs).flatMap (escapePoint q) ++ [q]

def quote (s : String) : String := String.ofList (quoteChars s.toList)

/-- Bytes show as their ASCII characters; the others always take the two-digit form. -/
def escapeByte (quote : Char) (b : UInt8) : List Char :=
  if b.toNat < 0x80 then escapePoint quote b.toNat else hexForm b.toNat

def quoteBytes (bs : List UInt8) : String :=
  let q := chooseQuote (bs.map fun b => Char.ofNat b.toNat)
  String.ofList ('b' :: q :: bs.flatMap (escapeByte q) ++ [q])

end Autotile.Text
