import Autotile.Cell.Key
import Autotile.Proofs.Fault

/-! # Keys that can be read

Reading stops at as many digits as writing does, so a cell that was read from a key can be looked
up by its key again. -/
namespace Autotile

open Text Numeral

namespace Numeral

private theorem digit_lt {c : Char} (h : isAsciiDigit c = true) : c.toNat - '0'.toNat < 10 :=
  decimalValue?_lt (decimalValue?_of_isAsciiDigit h)

theorem digitsValue_lt {cs : List Char} (h : ∀ c ∈ cs, isAsciiDigit c = true) :
    digitsValue cs < Nat.pow 10 cs.length := by
  unfold digitsValue
  induction cs with
  | nil => simp
  | cons c cs ih =>
    have rest := ih fun d hd => h d (List.mem_cons_of_mem c hd)
    have digit := digit_lt (h c List.mem_cons_self)
    have split : Nat.ofDigitChars 10 (c :: cs) 0 =
        Nat.pow 10 cs.length * (c.toNat - '0'.toNat) + Nat.ofDigitChars 10 cs 0 := by
      rw [Nat.ofDigitChars_cons, Nat.ofDigitChars_eq_ofDigitChars_zero, Nat.mul_zero, Nat.zero_add]
      rfl
    have scaled : Nat.pow 10 cs.length * (c.toNat - '0'.toNat) ≤ Nat.pow 10 cs.length * 9 :=
      Nat.mul_le_mul_left _ (by omega)
    have longer : Nat.pow 10 (c :: cs).length = Nat.pow 10 cs.length * 10 := rfl
    omega

theorem natAbs_withSign (negative : Bool) (n : Nat) : (withSign negative n).natAbs = n := by
  cases negative <;> simp [withSign]

private theorem isAsciiDigit_of_numeral {cs : List Char} :
    ∀ c ∈ (cs.takeWhile isNumeralChar).filter (· ≠ '_'), isAsciiDigit c = true := by
  intro c hc
  obtain ⟨hc, hne⟩ := List.mem_filter.mp hc
  have numeral : isNumeralChar c = true := List.all_eq_true.mp List.all_takeWhile c hc
  simp only [isNumeralChar, Bool.or_eq_true, decide_eq_true_eq] at numeral
  exact numeral.resolve_right (by simpa using hne)

theorem readPlain_writable {given : String} {cs : List Char} {n : Int}
    (h : readPlain given cs = .ok n) : Writable n := by
  unfold readPlain at h
  simp only at h
  by_cases gap : ((fields '_' ((signed (cs.dropWhile isPlainBlank)).2.takeWhile
      isNumeralChar)).any (·.isEmpty)) = true
  · rw [if_pos gap] at h
    cases h
  rw [if_neg gap] at h
  by_cases long : digitLimit < (((signed (cs.dropWhile isPlainBlank)).2.takeWhile
      isNumeralChar).filter (· ≠ '_')).length
  · rw [if_pos long] at h
    cases h
  rw [if_neg long] at h
  by_cases blank : ((signed (cs.dropWhile isPlainBlank)).2.dropWhile isNumeralChar).all
      isPlainBlank = true
  · rw [if_pos blank] at h
    obtain rfl := Except.ok.inj h
    unfold Writable writeBound
    rw [natAbs_withSign]
    -- the limit is far too large for its power to be evaluated
    generalize digitLimit = limit at long
    refine Nat.lt_of_lt_of_le (digitsValue_lt isAsciiDigit_of_numeral) ?_
    exact Nat.pow_le_pow_right (by decide) (Nat.le_of_not_lt long)
  · rw [if_neg blank] at h
    cases h

end Numeral

theorem Cell.ofKey_keyed {key : String} {c : Cell} (h : Cell.ofKey key = .ok c) : c.Keyed := by
  unfold ofKey at h
  split at h
  · next s e u _ =>
    by_cases parts : (isKeyPart s && isKeyPart e && isKeyPart u) = true
    · rw [if_pos parts] at h
      obtain ⟨s, hs, h⟩ := eq_ok_of_bind h
      obtain ⟨e, he, h⟩ := eq_ok_of_bind h
      obtain ⟨u, hu, h⟩ := eq_ok_of_bind h
      obtain rfl := Except.ok.inj h
      exact ⟨readPlain_writable (eq_ok_of_mapError hs), readPlain_writable (eq_ok_of_mapError he),
        readPlain_writable (eq_ok_of_mapError hu)⟩
    · rw [if_neg parts] at h
      cases h
  · cases h

end Autotile
