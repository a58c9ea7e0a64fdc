/-! Texts of any code points. The code points D800 to DFFF, the surrogates, stand for no character:
a high and a low one encode together a code point beyond FFFF. A text keeps a surrogate, and the
mark itself, as two characters, the mark and one after it, and every other code point as its
character. What is kept is read back, and texts are ordered as their code points are. -/
namespace Autotile.Text

def isHighSurrogate (n : Nat) : Bool := 0xD800 ≤ n && n < 0xDC00

def isLowSurrogate (n : Nat) : Bool := 0xDC00 ≤ n && n < 0xE000

def joinSurrogates (high low : Nat) : Nat := 0x10000 + (high - 0xD800) * 0x400 + (low - 0xDC00)

/-- Stands before a character that keeps another code point than its own. -/
def mark : Char := Char.ofNat 0xE000

/-- How far the character after the mark lies above the code point that the two keep. -/
def markedDistance : Nat := 0x801

def isMarked (n : Nat) : Bool := 0xD800 ≤ n && n ≤ 0xE000

/-- The characters that keep a code point. -/
def keep (n : Nat) : List Char :=
  if isMarked n then [mark, Char.ofNat (n + markedDistance)] else [Char.ofNat n]

def keepChars (cs : List Char) : List Char := cs.flatMap fun c => keep c.toNat

def points : List Char → List Nat
  | [] => []
  | [c] => [c.toNat]
  | c :: d :: cs =>
    if c = mark && isMarked (d.toNat - markedDistance) then
      (d.toNat - markedDistance) :: points cs
    else c.toNat :: points (d :: cs)

theorem isMarked_iff {n : Nat} : isMarked n = true ↔ 0xD800 ≤ n ∧ n ≤ 0xE000 := by
  simp [isMarked]

theorem toNat_ofNat {n : Nat} (h : n.isValidChar) : (Char.ofNat n).toNat = n := by
  unfold Char.ofNat
  rw [dif_pos h]
  rfl

theorem isValidChar_of_not_isMarked {n : Nat} (h : n < 0x110000) (hm : ¬isMarked n = true) :
    n.isValidChar := by
  rw [isMarked_iff] at hm
  exact (Nat.lt_or_ge n 0xD800).imp id fun _ => ⟨by omega, h⟩

theorem toNat_marked {n : Nat} (h : isMarked n = true) :
    (Char.ofNat (n + markedDistance)).toNat = n + markedDistance := by
  rw [isMarked_iff] at h
  exact toNat_ofNat (Or.inr ⟨by unfold markedDistance; omega, by unfold markedDistance; omega⟩)

theorem points_cons_of_ne_mark {c : Char} (h : c ≠ mark) (cs : List Char) :
    points (c :: cs) = c.toNat :: points cs := by
  cases cs <;> simp [points, h]

theorem points_keep_append {n : Nat} (h : n < 0x110000) (cs : List Char) :
    points (keep n ++ cs) = n :: points cs := by
  unfold keep
  by_cases hm : isMarked n = true
  · simp [points, hm, toNat_marked hm]
  · have hn := toNat_ofNat (isValidChar_of_not_isMarked h hm)
    have hne : Char.ofNat n ≠ mark := fun he => hm (hn ▸ he ▸ by decide)
    rw [if_neg hm, List.singleton_append, points_cons_of_ne_mark hne, hn]

/-- Every code point that is kept is read back. -/
theorem points_flatMap_keep {ns : List Nat} (h : ∀ n ∈ ns, n < 0x110000) :
    points (ns.flatMap keep) = ns := by
  induction ns with
  | nil => rfl
  | cons n ns ih =>
    rw [List.flatMap_cons, points_keep_append (h n List.mem_cons_self),
      ih fun m hm => h m (List.mem_cons_of_mem n hm)]

theorem points_keepChars (cs : List Char) : points (keepChars cs) = cs.map Char.toNat := by
  have h : ∀ n ∈ cs.map Char.toNat, n < 0x110000 := fun n hn => by
    obtain ⟨c, _, rfl⟩ := List.mem_map.1 hn
    have : c.toNat < 0xD800 ∨ (0xDFFF < c.toNat ∧ c.toNat < 0x110000) := c.valid
    omega
  simpa [keepChars, List.flatMap_map] using points_flatMap_keep h

theorem char_lt_of_toNat_lt {c d : Char} (h : c.toNat < d.toNat) : c < d := h

/-- The lesser code point makes the lesser text, whatever follows. -/
theorem keep_append_lt {m n : Nat} (h : m < n) (hn : n < 0x110000) (cs ds : List Char) :
    keep m ++ cs < keep n ++ ds := by
  have hmark : mark.toNat = 0xE000 := rfl
  unfold keep
  by_cases hm : isMarked m = true <;> by_cases hn' : isMarked n = true
  · rw [if_pos hm, if_pos hn']
    have : Char.ofNat (m + markedDistance) < Char.ofNat (n + markedDistance) :=
      char_lt_of_toNat_lt (by rw [toNat_marked hm, toNat_marked hn']; omega)
    simp [List.cons_lt_cons_iff, this]
  · rw [if_pos hm, if_neg hn']
    have hv := toNat_ofNat (isValidChar_of_not_isMarked hn hn')
    rw [isMarked_iff] at hm hn'
    have : mark < Char.ofNat n := char_lt_of_toNat_lt (by omega)
    simp [List.cons_lt_cons_iff, this]
  · rw [if_neg hm, if_pos hn']
    have hv := toNat_ofNat (isValidChar_of_not_isMarked (Nat.lt_trans h hn) hm)
    rw [isMarked_iff] at hm hn'
    have : Char.ofNat m < mark := char_lt_of_toNat_lt (by omega)
    simp [List.cons_lt_cons_iff, this]
  · rw [if_neg hm, if_neg hn']
    have hv := toNat_ofNat (isValidChar_of_not_isMarked hn hn')
    have hv' := toNat_ofNat (isValidChar_of_not_isMarked (Nat.lt_trans h hn) hm)
    have : Char.ofNat m < Char.ofNat n := char_lt_of_toNat_lt (by omega)
    simp [List.cons_lt_cons_iff, this]

end Autotile.Text
