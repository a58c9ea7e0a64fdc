import Autotile.Text.CodePoint
import Autotile.Text.Quoted

/-! Bytes of a JSON text. The encoding is told by a mark at the start or, without one, by the
zeros among the first four bytes, since a JSON text starts with an ASCII character. A surrogate
that stands alone is no fault, also where the encoding has no place for one. -/
namespace Autotile.Json

open Text

inductive Encoding where
  | utf8
  | utf16 (bigEndian : Bool)
  | utf32 (bigEndian : Bool)
  deriving DecidableEq, Repr

def Encoding.name : Encoding → String
  | .utf8 => "utf-8"
  | .utf16 false => "utf-16-le"
  | .utf16 true => "utf-16-be"
  | .utf32 false => "utf-32-le"
  | .utf32 true => "utf-32-be"

/-- The encoding, and the length of its mark. -/
def detect : List UInt8 → Encoding × Nat
  | 0x00 :: 0x00 :: 0xFE :: 0xFF :: _ => (.utf32 true, 4)
  | 0xFF :: 0xFE :: 0x00 :: 0x00 :: _ => (.utf32 false, 4)
  | 0xFE :: 0xFF :: _ => (.utf16 true, 2)
  | 0xFF :: 0xFE :: _ => (.utf16 false, 2)
  | 0xEF :: 0xBB :: 0xBF :: _ => (.utf8, 3)
  | a :: b :: c :: d :: _ =>
    if a = 0 then (if b = 0 then .utf32 true else .utf16 true, 0)
    else if b = 0 then (if c = 0 && d = 0 then .utf32 false else .utf16 false, 0)
    else (.utf8, 0)
  | [a, b] => (if a = 0 then .utf16 true else if b = 0 then .utf16 false else .utf8, 0)
  | _ => (.utf8, 0)

inductive DecodeReason where
  | startByte
  | continuationByte
  | endOfData
  | truncated
  | outOfRange
  deriving DecidableEq, Repr

def DecodeReason.text : DecodeReason → String
  | .startByte => "invalid start byte"
  | .continuationByte => "invalid continuation byte"
  | .endOfData => "unexpected end of data"
  | .truncated => "truncated data"
  | .outOfRange => "code point not in range(0x110000)"

/-- Bytes that stand for no character: where they start, how many they are, and the first. -/
structure DecodeFault where
  encoding : Encoding
  start : Nat
  count : Nat
  byte : UInt8
  reason : DecodeReason
  deriving DecidableEq, Repr

def DecodeFault.message (f : DecodeFault) : String :=
  let place :=
    if f.count = 1 then
      "byte 0x" ++ String.ofList (Text.hexDigits 2 f.byte.toNat) ++ " in position " ++
        toString f.start
    else "bytes in position " ++ toString f.start ++ "-" ++ toString (f.start + f.count - 1)
  "'" ++ f.encoding.name ++ "' codec can't decode " ++ place ++ ": " ++ f.reason.text

abbrev Step := Except (Nat × DecodeReason) (Nat × Nat)

def isContinuation (low high : Nat) (b : UInt8) : Bool := low ≤ b.toNat && b.toNat ≤ high

/-- Reads the remaining continuation bytes; the first of them has a range of its own. -/
def continuation (low high seen : Nat) : Nat → Nat → List UInt8 → Step
  | 0, point, _ => .ok (point, seen)
  | _ + 1, _, [] => .error (seen, .endOfData)
  | n + 1, point, b :: bs =>
    if isContinuation low high b then
      continuation 0x80 0xBF (seen + 1) n (point * 64 + (b.toNat - 0x80)) bs
    else .error (seen, .continuationByte)

def utf8Step (lead : UInt8) (bs : List UInt8) : Step :=
  let n := lead.toNat
  if n < 0x80 then .ok (n, 1)
  else if n < 0xC2 then .error (1, .startByte)
  else if n < 0xE0 then continuation 0x80 0xBF 1 1 (n - 0xC0) bs
  else if n = 0xE0 then continuation 0xA0 0xBF 1 2 0 bs
  else if n = 0xED then
    match bs with
    | a :: b :: _ =>
      if isContinuation 0xA0 0xBF a && isContinuation 0x80 0xBF b then
        .ok (0xD000 + (a.toNat - 0x80) * 64 + (b.toNat - 0x80), 3)
      else continuation 0x80 0x9F 1 2 0xD bs
    | _ => continuation 0x80 0x9F 1 2 0xD bs
  else if n < 0xF0 then continuation 0x80 0xBF 1 2 (n - 0xE0) bs
  else if n = 0xF0 then continuation 0x90 0xBF 1 3 0 bs
  else if n < 0xF4 then continuation 0x80 0xBF 1 3 (n - 0xF0) bs
  else if n = 0xF4 then continuation 0x80 0x8F 1 3 4 bs
  else .error (1, .startByte)

def unit16 (bigEndian : Bool) (a b : UInt8) : Nat :=
  if bigEndian then a.toNat * 256 + b.toNat else b.toNat * 256 + a.toNat

def utf16Step (bigEndian : Bool) : List UInt8 → Step
  | a :: b :: rest =>
    let high := unit16 bigEndian a b
    match rest with
    | c :: d :: _ =>
      let low := unit16 bigEndian c d
      if isHighSurrogate high && isLowSurrogate low then .ok (joinSurrogates high low, 4)
      else .ok (high, 2)
    | _ => .ok (high, 2)
  | bs => .error (bs.length, .truncated)

def utf32Step (bigEndian : Bool) : List UInt8 → Step
  | a :: b :: c :: d :: _ =>
    let n :=
      if bigEndian then unit16 true a b * 65536 + unit16 true c d
      else unit16 false c d * 65536 + unit16 false a b
    if n < 0x110000 then .ok (n, 4) else .error (4, .outOfRange)
  | bs => .error (bs.length, .truncated)

def Encoding.step : Encoding → UInt8 → List UInt8 → Step
  | .utf8, b, bs => utf8Step b bs
  | .utf16 big, b, bs => utf16Step big (b :: bs)
  | .utf32 big, b, bs => utf32Step big (b :: bs)

/-- Every step takes a byte at least, so as many steps as bytes suffice. -/
def decodeFrom (encoding : Encoding) : Nat → Nat → List UInt8 → Except DecodeFault (List Char)
  | _, _, [] => .ok []
  | 0, _, _ :: _ => .ok []
  | fuel + 1, pos, b :: bs =>
    match encoding.step b bs with
    | .ok (point, count) =>
      (decodeFrom encoding fuel (pos + count) (bs.drop (count - 1))).map (keep point ++ ·)
    | .error (count, reason) => .error ⟨encoding, pos, count, b, reason⟩

def decode (bs : List UInt8) : Except DecodeFault (List Char) :=
  let (encoding, mark) := detect bs
  decodeFrom encoding bs.length (if encoding = .utf8 then 0 else mark) (bs.drop mark)

end Autotile.Json
