import Autotile.Proofs.Cell.RoundTrip

/-! # One canonical key for each cell

Of the many spellings that are read as one cell, a single one has nothing to spare: no blank, no
plus sign, no zero before another digit and no minus sign before a zero. That is the one in which
the key of the cell is written. -/
namespace Autotile

open Text Numeral

namespace Numeral

/-- No zero stands before another digit. -/
def Unpadded (digits : List Char) : Prop := digits.head? = some '0' → digits = ['0']

theorem toDigits_digit {c : Char} (h : isAsciiDigit c = true) :
    Nat.toDigits 10 (c.toNat - '0'.toNat) = [c] := by
  obtain ⟨low, high⟩ := isAsciiDigit_iff.mp h
  have zero : '0'.toNat = 48 := rfl
  have code : (Nat.digitChar (c.toNat - 48)).toNat = c.toNat := by
    rw [Nat.toNat_digitChar_of_lt_ten (by omega)]
    omega
  rw [zero, Nat.toDigits_of_lt_base (by omega), Char.toNat_inj.mp code]

theorem toDigits_ofDigitChars {cs : List Char} (digits : ∀ c ∈ cs, isAsciiDigit c = true) {n : Nat}
    (positive : 0 < n) :
    Nat.toDigits 10 (Nat.ofDigitChars 10 cs n) = Nat.toDigits 10 n ++ cs := by
  induction cs generalizing n with
  | nil => rw [Nat.ofDigitChars_nil, List.append_nil]
  | cons c cs ih =>
    have digit := digits c List.mem_cons_self
    have below : c.toNat - '0'.toNat < 10 := decimalValue?_lt (decimalValue?_of_isAsciiDigit digit)
    rw [Nat.ofDigitChars_cons, ih (fun d hd => digits d (List.mem_cons_of_mem c hd)) (by omega),
      ← Nat.toDigits_append_toDigits (by decide) positive below, toDigits_digit digit,
      List.append_assoc, List.singleton_append]

theorem toDigits_digitsValue {cs : List Char} (word : Word isAsciiDigit cs) (h : Unpadded cs) :
    Nat.toDigits 10 (digitsValue cs) = cs := by
  obtain ⟨first, rest, rfl⟩ := List.exists_cons_of_ne_nil word.1
  by_cases zero : first = '0'
  · rw [h (congrArg some zero)]
    decide
  · have digit := word.2 first List.mem_cons_self
    have positive : 0 < first.toNat - '0'.toNat := by
      obtain ⟨low, _⟩ := isAsciiDigit_iff.mp digit
      have other : first.toNat ≠ '0'.toNat := fun same => zero (Char.toNat_inj.mp same)
      have code : '0'.toNat = 48 := rfl
      omega
    rw [digitsValue, Nat.ofDigitChars_cons, Nat.mul_zero, Nat.zero_add,
      toDigits_ofDigitChars (fun d hd => word.2 d (List.mem_cons_of_mem first hd)) positive,
      toDigits_digit digit, List.singleton_append]

theorem unpadded_toDigits (n : Nat) : Unpadded (Nat.toDigits 10 n) := by
  induction n using Nat.strongRecOn with
  | ind n ih =>
    by_cases small : n < 10
    · rw [Nat.toDigits_of_lt_base small]
      intro zero
      rw [Option.some.inj zero]
    · rw [Nat.toDigits_of_base_le (by decide) (by omega)]
      intro zero
      obtain ⟨first, rest, begins⟩ :=
        List.exists_cons_of_ne_nil (Nat.toDigits_ne_nil (n := n / 10) (b := 10))
      rw [begins] at zero
      have tenth := ih (n / 10) (by omega) (begins ▸ zero)
      have value := Nat.ofDigitChars_toDigits (b := 10) (n := n / 10) (by decide) (by decide)
      rw [tenth] at value
      have none : Nat.ofDigitChars 10 ['0'] 0 = 0 := by decide
      omega

end Numeral

namespace Cell

/-- A part of a key with nothing to spare. -/
structure KeyPart.Canonical (p : KeyPart) : Prop where
  lead : p.lead = []
  trail : p.trail = []
  plus : p.sign ≠ .plus
  zeros : Unpadded p.digits
  minus : p.sign = .minus → p.digits ≠ ['0']

theorem canonical_writtenPart (n : Int) : (writtenPart n).Canonical where
  lead := rfl
  trail := rfl
  plus := by
    simp only [writtenPart]
    split <;> simp
  zeros := unpadded_toDigits n.natAbs
  minus := by
    intro minus zero
    have size : n.natAbs = 0 := by
      rw [← Nat.ofDigitChars_toDigits (b := 10) (n := n.natAbs) (by decide) (by decide)]
      have digits : Nat.toDigits 10 n.natAbs = ['0'] := zero
      rw [digits]
      rfl
    simp only [writtenPart] at minus
    rw [if_neg (by omega)] at minus
    cases minus

theorem KeyPart.Canonical.text_eq {p : KeyPart} (h : p.Canonical) :
    p.text = (writtenPart p.value).text := by
  have size : p.value.natAbs = digitsValue p.digits := natAbs_withSign _ _
  have digits : Nat.toDigits 10 p.value.natAbs = p.digits := by
    rw [size]
    exact toDigits_digitsValue p.word h.zeros
  have sign : (if p.value < 0 then Sign.minus else .absent) = p.sign := by
    cases hs : p.sign with
    | plus => exact absurd hs h.plus
    | absent =>
      have value : p.value = digitsValue p.digits := by
        simp only [value, hs, Sign.isMinus, withSign, Bool.false_eq_true, if_false]
      rw [if_neg (by omega)]
    | minus =>
      have value : p.value = -digitsValue p.digits := by
        simp only [value, hs, Sign.isMinus, withSign, if_true]
      have nonzero : digitsValue p.digits ≠ 0 := by
        intro zero
        rw [size, zero] at digits
        exact h.minus hs digits.symm
      rw [if_pos (by omega)]
  simp only [text, writtenPart, h.lead, h.trail, sign, digits]

structure KeySpelling.Canonical (k : KeySpelling) : Prop where
  s : k.s.Canonical
  e : k.e.Canonical
  u : k.u.Canonical

theorem canonical_writtenKey (c : Cell) : c.writtenKey.Canonical :=
  ⟨canonical_writtenPart c.s, canonical_writtenPart c.e, canonical_writtenPart c.u⟩

theorem KeySpelling.Canonical.text_eq {k : KeySpelling} (h : k.Canonical) :
    k.text = k.cell.key.toList := by
  rw [← text_writtenKey]
  simp only [text, h.s.text_eq, h.e.text_eq, h.u.text_eq]
  rfl

def IsCanonicalKey (key : String) : Prop :=
  ∃ k : KeySpelling, k.text = key.toList ∧ k.Canonical

theorem isCanonicalKey_key (c : Cell) : IsCanonicalKey c.key :=
  ⟨c.writtenKey, text_writtenKey c, canonical_writtenKey c⟩

theorem canonicalKey_iff {c : Cell} (h : c.Keyed) {key : String} :
    IsCanonicalKey key ∧ ofKey key = .ok c ↔ key = c.key := by
  constructor
  · rintro ⟨⟨k, spelled, canonical⟩, read⟩
    have cell : k.cell = c := by
      by_cases readable : k.Readable
      · rw [readable.ofKey spelled] at read
        exact Except.ok.inj read
      · obtain ⟨fault, failed⟩ := k.exists_fault readable spelled
        rw [read] at failed
        cases failed
    rw [← String.toList_inj, ← spelled, canonical.text_eq, cell]
  · rintro rfl
    exact ⟨isCanonicalKey_key c, ofKey_key h⟩

/-- No coordinate is written in more digits than a numeral may have. -/
structure Short (c : Cell) : Prop where
  s : (Nat.toDigits 10 c.s.natAbs).length ≤ digitLimit
  e : (Nat.toDigits 10 c.e.natAbs).length ≤ digitLimit
  u : (Nat.toDigits 10 c.u.natAbs).length ≤ digitLimit

theorem Short.keyed {c : Cell} (h : c.Short) : c.Keyed := by
  have written : ∀ n : Int, (Nat.toDigits 10 n.natAbs).length ≤ digitLimit → Writable n := by
    intro n short
    have positive : 0 < digitLimit := by decide
    unfold Writable writeBound
    -- the limit is far too large for its power to be evaluated
    generalize digitLimit = limit at short positive
    exact (Nat.length_toDigits_le_iff (by decide) positive).mp short
  exact ⟨written c.s h.s, written c.e h.e, written c.u h.u⟩

/-- The key of a cell with short coordinates is read as the cell, so that no two of them share one.
Whatever spelling a cell is read from, its key is the one canonical spelling that is read as it. -/
theorem keys_identify_cells :
    (∀ c : Cell, c.Short → ∃ key, c.key? = .ok key ∧ ofKey key = .ok c) ∧
    (∀ c d : Cell, c.Short → d.Short → c.key? = d.key? → c = d) ∧
    ∀ text c, ofKey text = .ok c → ∃ key, c.key? = .ok key ∧ ofKey key = .ok c ∧
      ∀ other, IsCanonicalKey other ∧ ofKey other = .ok c ↔ other = key := by
  have written : ∀ {c : Cell}, c.Keyed → c.key? = .ok c.key := fun keyed => if_pos keyed
  refine ⟨?_, ?_, ?_⟩
  · intro c short
    exact ⟨c.key, written short.keyed, ofKey_key short.keyed⟩
  · intro c d hc hd same
    rw [written hc.keyed, written hd.keyed] at same
    exact key_inj hc.keyed hd.keyed (Except.ok.inj same)
  · intro text c read
    have keyed := ofKey_keyed read
    exact ⟨c.key, written keyed, ofKey_key keyed, fun _ => canonicalKey_iff keyed⟩

theorem keys_identify_cells_padded :
    (∃ key, (⟨1, -20, 0⟩ : Cell).key? = .ok key ∧ ofKey key = .ok ⟨1, -20, 0⟩) ∧
    ((⟨1, -20, 0⟩ : Cell).key? ≠ (⟨1, 20, 0⟩ : Cell).key?) ∧
    ofKey " +01, -020 ,-0" = .ok ⟨1, -20, 0⟩ ∧
    ∃ key, (⟨1, -20, 0⟩ : Cell).key? = .ok key ∧ ofKey key = .ok ⟨1, -20, 0⟩ ∧
      ∀ other, IsCanonicalKey other ∧ ofKey other = .ok ⟨1, -20, 0⟩ ↔ other = key := by
  obtain ⟨back, apart, canonical⟩ := keys_identify_cells
  have below : Short ⟨1, -20, 0⟩ := ⟨by decide, by decide, by decide⟩
  have above : Short ⟨1, 20, 0⟩ := ⟨by decide, by decide, by decide⟩
  have read : ofKey " +01, -020 ,-0" = .ok ⟨1, -20, 0⟩ := by decide +kernel
  refine ⟨back _ below, ?_, read, canonical _ _ read⟩
  intro same
  cases apart _ _ below above same

end Cell

end Autotile
