import Mathlib.Data.List.TakeWhile
import Autotile.Numeral.Integer
import Autotile.Proofs.Text.Fields

/-! # Reading numerals

A numeral is read where it stands between blanks, with a sign before its digits or without, as long
as there are not too many of them. The information separators are blanks to which the reader does
not hold. -/
namespace Autotile.Numeral

open Text

theorem isAsciiDigit_iff {c : Char} :
    isAsciiDigit c = true ↔ 48 ≤ c.toNat ∧ c.toNat ≤ 57 := by
  simp only [isAsciiDigit, Bool.and_eq_true, decide_eq_true_eq, Char.le_def,
    UInt32.le_iff_toNat_le]
  exact Iff.rfl

inductive Sign where
  | absent
  | plus
  | minus
  deriving DecidableEq, Repr

namespace Sign

def chars : Sign → List Char
  | .absent => []
  | .plus => ['+']
  | .minus => ['-']

def isMinus : Sign → Bool
  | .minus => true
  | _ => false

theorem signed_append (sign : Sign) {c : Char} {cs : List Char} (plus : c ≠ '+') (minus : c ≠ '-') :
    signed (sign.chars ++ c :: cs) = (sign.isMinus, c :: cs) := by
  cases sign with
  | absent => simp [chars, signed, plus, minus, isMinus]
  | plus => rfl
  | minus => rfl

theorem exists_append_signed (cs : List Char) :
    ∃ sign : Sign, sign.chars ++ (signed cs).2 = cs := by
  unfold signed
  split
  · exact ⟨.minus, rfl⟩
  · exact ⟨.plus, rfl⟩
  · exact ⟨.absent, rfl⟩

end Sign

/-- A blank that may not stand around a numeral. -/
def IsSeparator (c : Char) : Prop := 0x1C ≤ c.toNat ∧ c.toNat ≤ 0x1F

instance (c : Char) : Decidable (IsSeparator c) := inferInstanceAs (Decidable (_ ∧ _))

theorem isPlainBlank_iff {c : Char} :
    isPlainBlank c = true ↔ (9 ≤ c.toNat ∧ c.toNat ≤ 13) ∨ c.toNat = 32 := by
  have space : c = ' ' ↔ c.toNat = 32 := by
    rw [← Char.toNat_inj]
    exact Iff.rfl
  simp [isPlainBlank, space]

structure Stray (c : Char) : Prop where
  numeral : isNumeralChar c = false
  plus : c ≠ '+'
  minus : c ≠ '-'

theorem stray_of_lt {c : Char} (h : c.toNat < 33) : Stray c := by
  have apart : ∀ d : Char, 33 ≤ d.toNat → c ≠ d := by
    rintro d hd rfl
    omega
  have digit : ¬isAsciiDigit c = true := by
    rw [isAsciiDigit_iff]
    omega
  exact ⟨by simp [isNumeralChar, digit, apart '_' (by decide)], apart '+' (by decide),
    apart '-' (by decide)⟩

/-- What the reader of numerals makes of a blank: one that it skips, unless it is a separator. -/
theorem plainChar_of_blank {c : Char} (h : isBlank c = true) :
    Stray (plainChar c) ∧ (isPlainBlank (plainChar c) = true ↔ ¬IsSeparator c) := by
  by_cases low : c.toNat < 127
  · have ranges : 9 ≤ c.toNat ∧ c.toNat ≤ 13 ∨ 28 ≤ c.toNat ∧ c.toNat ≤ 32 := by
      obtain ⟨range, hr, inside⟩ := List.any_eq_true.mp h
      simp only [blankRanges, List.mem_cons, List.not_mem_nil, or_false] at hr
      simp only [Bool.and_eq_true, decide_eq_true_eq] at inside
      rcases hr with rfl | rfl | rfl | rfl | rfl | rfl | rfl | rfl | rfl | rfl <;> omega
    have itself : plainChar c = c := if_pos low
    rw [itself, isPlainBlank_iff, IsSeparator]
    constructor
    · apply stray_of_lt
      omega
    · omega
  · have space : plainChar c = ' ' := by
      rw [plainChar, if_neg low, if_pos h]
    have skipped : isPlainBlank ' ' = true := by decide
    rw [space, IsSeparator]
    constructor
    · exact stray_of_lt (by decide)
    · simp only [skipped, true_iff]
      omega

theorem plainChar_of_digit {c : Char} (h : isAsciiDigit c = true) : plainChar c = c := by
  obtain ⟨_, high⟩ := isAsciiDigit_iff.mp h
  exact if_pos (by omega)

theorem plainText_eq_map {cs : List Char} (h : ∀ c ∈ cs, c.toNat ≠ 127) :
    plainText cs = cs.map plainChar := by
  unfold plainText
  by_cases ascii : cs.all (·.toNat < 128) = true
  · have itself : ∀ c ∈ cs, plainChar c = c := by
      intro c hc
      have bound := of_decide_eq_true (List.all_eq_true.mp ascii c hc)
      have apart := h c hc
      exact if_pos (by omega)
    rw [if_pos ascii, List.map_congr_left itself, List.map_id']
  · rw [if_neg ascii]

section Reading

variable {given : String} {lead digits trail : List Char} {sign : Sign} {c : Char}

theorem readPlain_of_stray (blank : ∀ d ∈ lead, isPlainBlank d = true)
    (stops : isPlainBlank c = false) (stray : Stray c) (rest : List Char) :
    readPlain given (lead ++ c :: rest) = .error (.notInteger given) := by
  have begins : (lead ++ c :: rest).dropWhile isPlainBlank = c :: rest := by
    rw [List.dropWhile_append_of_pos blank, List.dropWhile_cons_of_neg (by simp [stops])]
  have unsigned : signed (c :: rest) = (false, c :: rest) :=
    Sign.signed_append .absent stray.plus stray.minus
  unfold readPlain
  rw [begins, unsigned]
  simp [stray.numeral, fields]

theorem signed_dropWhile {skip : Char → Bool} (skipped : ∀ d ∈ lead, skip d = true)
    (signs : ∀ d, d = '+' ∨ d = '-' ∨ isAsciiDigit d = true → skip d = false)
    (word : Word isAsciiDigit digits) :
    signed ((lead ++ (sign.chars ++ (digits ++ trail))).dropWhile skip) =
      (sign.isMinus, digits ++ trail) := by
  obtain ⟨first, rest, rfl⟩ := List.exists_cons_of_ne_nil word.1
  have digit := word.2 first List.mem_cons_self
  obtain ⟨low, _⟩ := isAsciiDigit_iff.mp digit
  have apart : ∀ d : Char, d.toNat < 48 → first ≠ d := by
    rintro d hd rfl
    omega
  have begins : (lead ++ (sign.chars ++ (first :: rest ++ trail))).dropWhile skip =
      sign.chars ++ (first :: rest ++ trail) := by
    rw [List.dropWhile_append_of_pos skipped]
    cases sign with
    | absent => exact List.dropWhile_cons_of_neg (by simp [signs first, digit])
    | plus => exact List.dropWhile_cons_of_neg (by simp [signs '+'])
    | minus => exact List.dropWhile_cons_of_neg (by simp [signs '-'])
  rw [begins]
  exact sign.signed_append (apart '+' (by decide)) (apart '-' (by decide))

theorem span_append {p : Char → Bool} {run rest : List Char} (run_all : ∀ d ∈ run, p d = true)
    (rest_none : ∀ d ∈ rest, p d = false) :
    (run ++ rest).takeWhile p = run ∧ (run ++ rest).dropWhile p = rest := by
  rw [List.takeWhile_append_of_pos run_all, List.dropWhile_append_of_pos run_all]
  cases rest with
  | nil => simp
  | cons d rest => simp [rest_none d List.mem_cons_self]

theorem readPlain_numeral (blank : ∀ d ∈ lead, isPlainBlank d = true)
    (word : Word isAsciiDigit digits) (ends : ∀ d ∈ trail, isNumeralChar d = false) :
    readPlain given (lead ++ (sign.chars ++ (digits ++ trail))) =
      if digitLimit < digits.length then .error (.tooManyDigits digits.length)
      else if trail.all isPlainBlank then .ok (withSign sign.isMinus (digitsValue digits))
      else .error (.notInteger given) := by
  have signs : ∀ d, d = '+' ∨ d = '-' ∨ isAsciiDigit d = true → isPlainBlank d = false := by
    rintro d (rfl | rfl | digit)
    · decide
    · decide
    · obtain ⟨low, high⟩ := isAsciiDigit_iff.mp digit
      rw [Bool.eq_false_iff, Ne, isPlainBlank_iff]
      omega
  have numeral : ∀ d ∈ digits, isNumeralChar d = true := fun d hd => by
    rw [isNumeralChar, word.2 d hd, Bool.true_or]
  have bare : '_' ∉ digits := word.notMem (by decide)
  have whole : digits.filter (· ≠ '_') = digits := by
    apply List.filter_eq_self.mpr
    intro d hd
    apply decide_eq_true
    rintro rfl
    exact bare hd
  obtain ⟨taken, left⟩ := span_append numeral ends
  unfold readPlain
  rw [signed_dropWhile blank signs word]
  simp only [taken, left, whole, fields_of_notMem bare]
  rw [if_neg (by simp [word.1])]

end Reading

end Autotile.Numeral
