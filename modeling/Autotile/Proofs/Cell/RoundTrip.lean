import Autotile.Proofs.Cell.Spelling

/-! # The canonical key is read back

The canonical key spells the three integers without blanks, each in the digits of its size, so a
cell that has a key is the cell of its key, and no two cells share one. -/
namespace Autotile

open Text Numeral

namespace Cell

def writtenPart (n : Int) : KeyPart where
  lead := []
  sign := if n < 0 then .minus else .absent
  digits := Nat.toDigits 10 n.natAbs
  trail := []
  lead_blank := List.forall_mem_nil _
  word := by
    constructor
    · exact Nat.toDigits_ne_nil
    · intro c hc
      have digit := Nat.isDigit_of_mem_toDigits (by decide) (by decide) hc
      simpa [Char.isDigit, isAsciiDigit, Char.le_def] using digit
  trail_blank := List.forall_mem_nil _

theorem text_writtenPart (n : Int) : (writtenPart n).text = (toString n).toList := by
  change _ = n.repr.toList
  rw [KeyPart.text, Int.repr_eq_if]
  simp only [writtenPart, List.nil_append, List.append_nil]
  by_cases h : 0 ≤ n
  · have size : n.toNat = n.natAbs := by omega
    rw [if_pos h, if_neg (by omega), Nat.toList_repr, size]
    rfl
  · have size : (-n).toNat = n.natAbs := by omega
    rw [if_neg h, if_pos (by omega), String.toList_append, Nat.toList_repr, size]
    rfl

theorem value_writtenPart (n : Int) : (writtenPart n).value = n := by
  simp only [KeyPart.value, writtenPart, digitsValue]
  rw [Nat.ofDigitChars_toDigits (by decide) (by decide)]
  by_cases h : n < 0
  · rw [if_pos h]
    change -(n.natAbs : Int) = n
    omega
  · rw [if_neg h]
    change (n.natAbs : Int) = n
    omega

theorem readable_writtenPart {n : Int} (h : Writable n) : (writtenPart n).Readable := by
  constructor
  case lead => exact List.forall_mem_nil _
  case trail => exact List.forall_mem_nil _
  case short =>
    have positive : 0 < digitLimit := by decide
    unfold Writable writeBound at h
    -- the limit is far too large for its power to be evaluated
    generalize digitLimit = limit at h positive
    exact (Nat.length_toDigits_le_iff (by decide) positive).mpr h

def writtenKey (c : Cell) : KeySpelling := ⟨writtenPart c.s, writtenPart c.e, writtenPart c.u⟩

theorem text_writtenKey (c : Cell) : c.writtenKey.text = c.key.toList := by
  unfold key
  simp only [KeySpelling.text, writtenKey, joinFields, text_writtenPart, String.toList_append,
    List.append_assoc]
  rfl

theorem cell_writtenKey (c : Cell) : c.writtenKey.cell = c := by
  simp only [KeySpelling.cell, writtenKey, value_writtenPart]

/-- The key of a cell is read back as the cell. -/
theorem ofKey_key {c : Cell} (h : c.Keyed) : ofKey c.key = .ok c := by
  obtain ⟨hs, he, hu⟩ := h
  have readable : c.writtenKey.Readable :=
    ⟨readable_writtenPart hs, readable_writtenPart he, readable_writtenPart hu⟩
  rw [readable.ofKey (text_writtenKey c), cell_writtenKey]

theorem key_inj {c d : Cell} (hc : c.Keyed) (hd : d.Keyed) (h : c.key = d.key) : c = d := by
  have same := ofKey_key hc
  rw [h, ofKey_key hd] at same
  exact (Except.ok.inj same).symm

end Cell

end Autotile
