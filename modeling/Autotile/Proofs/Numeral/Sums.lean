import Mathlib.Tactic.Ring
import Autotile.Proofs.Numeral.Order

/-! # Sums of small numbers

A whole number and a quotient are rounded, and their sum again. Where the numbers are small the sum
is off by less than a tenth, so it stands between the same integers as the exact one. -/
namespace Autotile.Numeral.Binary64

variable {m n x : Int} {den k : Nat}

/-- A rounded quotient that is added to a count of units and rounded again is off by no more than
one step of the quotient and two of the sum. -/
theorem rounded_add_near {a b : Int} (pos : 0 < den) (ha : a.natAbs ≤ Nat.pow 2 (54 + k))
    (hb : b.natAbs ≤ Nat.pow 2 (53 + k)) :
    (rounded (a + rounded b den) 1).natAbs ≤ Nat.pow 2 (55 + k) ∧
    (den * rounded (a + rounded b den) 1 - (den * a + b)).natAbs ≤ 3 * (den * Nat.pow 2 k) := by
  have scale (i : Nat) : Nat.pow 2 (i + k) = 2 ^ i * Nat.pow 2 k := Nat.pow_add 2 i k
  have positive : 0 < Nat.pow 2 k := Nat.two_pow_pos k
  have larger (i : Nat) : Nat.pow 2 i ≤ Nat.pow 2 i * den := Nat.le_mul_of_pos_right _ pos
  have quotient : (rounded b den).natAbs ≤ Nat.pow 2 (53 + k) :=
    natAbs_rounded_le pos (Nat.le_trans hb (larger _))
  have size : (a + rounded b den).natAbs < Nat.pow 2 (55 + k) := by
    rw [scale] at ha quotient ⊢
    omega
  have inner := natAbs_rounded_sub_le (n := b) (k := k) pos (by
    refine Nat.lt_of_lt_of_le ?_ (larger _)
    rw [scale] at hb ⊢
    omega)
  have outer : (rounded (a + rounded b den) 1 - (a + rounded b den)).natAbs ≤ 2 * Nat.pow 2 k := by
    have off := natAbs_rounded_sub_le (k := 1 + k) Nat.one_pos (by
      rwa [Nat.mul_one, ← Nat.add_assoc])
    rwa [Int.natCast_one, Int.mul_one, Nat.one_mul, scale] at off
  generalize rounded b den = r at size inner outer ⊢
  constructor
  · apply natAbs_rounded_le Nat.one_pos
    rw [Nat.mul_one]
    exact Nat.le_of_lt size
  · generalize rounded (a + r) 1 = s at outer ⊢
    calc
      (den * s - (den * a + b)).natAbs = (den * (s - (a + r)) + (r * den - b)).natAbs := by
        congr 1
        ring
      _ ≤ (den * (s - (a + r))).natAbs + (r * den - b).natAbs := Int.natAbs_add_le _ _
      _ ≤ den * (2 * Nat.pow 2 k) + den * Nat.pow 2 k := by
        rw [Int.natAbs_mul, Int.natAbs_natCast]
        exact Nat.add_le_add (Nat.mul_le_mul_left den outer) inner
      _ = 3 * (den * Nat.pow 2 k) := by ring

/-- The sum of a whole number and a quotient in units, rounded at every step but never infinite. -/
def sumUnits (m n : Int) (den : Nat) : Int :=
  rounded (rounded (m * one) 1 + rounded (n * one) den) 1

theorem sumUnits_near (pos : 0 < den) (hm : m.natAbs ≤ 2 ^ 49) (hn : n.natAbs ≤ 2 ^ 48) :
    (sumUnits m n den).natAbs < overflow ∧
    10 * (den * sumUnits m n den - (den * m + n) * one).natAbs < den * one := by
  obtain ⟨l, high, unit, top, fine, room⟩ := room_about_one
  obtain ⟨k, rfl⟩ := Nat.exists_eq_add_of_le fine
  have fit {i : Int} {a : Nat} (h : i.natAbs ≤ 2 ^ a) :
      (i * one).natAbs ≤ Nat.pow 2 (a + 5 + k) := by
    calc
      (i * one).natAbs = i.natAbs * one := by rw [Int.natAbs_mul, Int.natAbs_natCast]
      _ ≤ 2 ^ a * one := Nat.mul_le_mul_right one h
      _ = Nat.pow 2 (a + 5 + k) := by
        rw [unit, Nat.add_assoc]
        exact (Nat.pow_add 2 a (5 + k)).symm
  have exactly : (den * m + n) * one = den * (m * one) + n * one := by
    rw [Int.add_mul, Int.mul_assoc]
  obtain ⟨sum, near⟩ := rounded_add_near pos (fit hm) (fit hn)
  unfold sumUnits
  rw [rounded_one (by omega), exactly]
  constructor
  · rw [top]
    exact Nat.lt_of_le_of_lt sum (Nat.pow_lt_pow_right Nat.one_lt_two (by omega))
  · have parts : den * one = 2 ^ 5 * (den * Nat.pow 2 k) := by
      rw [unit, Nat.mul_left_comm]
      exact congrArg _ (Nat.pow_add 2 5 k)
    have positive : 0 < den * Nat.pow 2 k := Nat.mul_pos pos (Nat.two_pow_pos k)
    omega

theorem sumUnits_whole (pos : 0 < den) (hm : m.natAbs < 2 ^ 53) (hn : n.natAbs < 2 ^ 53)
    (sum : (m + n).natAbs < 2 ^ 53) : sumUnits m (den * n) den = (m + n) * one := by
  have quotient : (den * n * one : Int) = n * one * den := by ring
  unfold sumUnits
  rw [rounded_one hm, quotient, rounded_whole hn pos, ← Int.add_mul, rounded_one sum]

/-- The sum stands among the integers as the exact one does. -/
theorem lt_sumUnits_iff (pos : 0 < den) (low : den ≤ 10) (hm : m.natAbs ≤ 2 ^ 49)
    (hn : n.natAbs ≤ 2 ^ 48) : x * one < sumUnits m n den ↔ den * x < den * m + n := by
  obtain ⟨-, near⟩ := sumUnits_near pos hm hn
  have limit : den * one ≤ 10 * one := Nat.mul_le_mul_right one low
  have units : (0 : Int) ≤ one := Int.natCast_nonneg one
  have positive : (0 : Int) < den := Int.natCast_pos.mpr pos
  have scaled : den * (x * one) = (den * x : Int) * one := (Int.mul_assoc _ _ _).symm
  rcases Int.lt_trichotomy (den * x) (den * m + n) with less | same | more
  · have gap : (den * x + 1) * one ≤ (den * m + n) * one :=
      Int.mul_le_mul_of_nonneg_right less units
    rw [Int.add_mul, Int.one_mul] at gap
    have apart : den * (x * one) < den * sumUnits m n den := by omega
    exact iff_of_true (Int.lt_of_mul_lt_mul_left apart positive.le) less
  · -- the exact sum is an integer, and then nothing is rounded
    have quotient : n = den * (x - m) := by
      rw [Int.mul_sub]
      omega
    have short : (x - m).natAbs ≤ 2 ^ 48 := by
      rw [quotient, Int.natAbs_mul, Int.natAbs_natCast] at hn
      exact Nat.le_trans (Nat.le_mul_of_pos_left _ pos) hn
    have sum := sumUnits_whole (m := m) (n := x - m) pos (by omega) (by omega) (by omega)
    rw [← quotient, add_sub_cancel] at sum
    rw [sum, same]
    exact iff_of_false (Int.lt_irrefl _) (Int.lt_irrefl _)
  · have gap : (den * m + n + 1) * one ≤ (den * x : Int) * one :=
      Int.mul_le_mul_of_nonneg_right more units
    rw [Int.add_mul, Int.one_mul] at gap
    have apart : den * sumUnits m n den < den * (x * one) := by omega
    have above := Int.lt_of_mul_lt_mul_left apart positive.le
    exact iff_of_false (by omega) (by omega)

theorem ofRatio_isFinite (small : n.natAbs ≤ 2 ^ 52) (pos : 0 < den) :
    (ofRatio n den).isFinite = true := by
  obtain ⟨k, l, unit, top, -, room⟩ := room_about_one
  have scaled : n.natAbs * one ≤ Nat.pow 2 (52 + k) * den := by
    rw [unit]
    calc
      n.natAbs * Nat.pow 2 k ≤ 2 ^ 52 * Nat.pow 2 k := Nat.mul_le_mul_right _ small
      _ = Nat.pow 2 (52 + k) := (Nat.pow_add 2 52 k).symm
      _ ≤ Nat.pow 2 (52 + k) * den := Nat.le_mul_of_pos_right _ pos
  have rounded : roundUnits (n.natAbs * one) den < overflow := by
    rw [top]
    exact Nat.lt_of_le_of_lt (roundUnits_le_pow pos scaled)
      (Nat.pow_lt_pow_right Nat.one_lt_two (by omega))
  unfold ofRatio nearest ofUnits
  rw [if_pos rounded]
  rfl

theorem ofInt_isFinite (small : n.natAbs ≤ 2 ^ 52) : (ofInt n).isFinite = true := by
  rw [ofInt_eq, ← ofRatio_eq]
  exact ofRatio_isFinite small Nat.one_pos

theorem exists_units_ofRatio (small : n.natAbs ≤ 2 ^ 52) (pos : 0 < den) :
    ∃ s u, ofRatio n den = .finite s u ∧ signedUnits s u = rounded (n * one) den := by
  have finite := ofRatio_isFinite small pos
  rw [ofRatio_eq] at finite ⊢
  exact ⟨_, _, eq_finite_of_isFinite finite, rfl⟩

theorem place?_ratio_add (pos : 0 < den) (hm : m.natAbs ≤ 2 ^ 49) (hn : n.natAbs ≤ 2 ^ 48) :
    ((ofRatio n den).add (ofInt m)).place? = some (.at (sumUnits m n den)) := by
  obtain ⟨s, u, quotient, hs⟩ := exists_units_ofRatio (n := n) (by omega) pos
  obtain ⟨t, v, whole, ht⟩ := exists_units_ofRatio (n := m) (by omega) Nat.one_pos
  obtain ⟨finite, -⟩ := sumUnits_near pos hm hn
  rw [ofInt_eq, ← ofRatio_eq, quotient, whole]
  apply place?_of_height finite
  rw [height_add, hs, ht, Int.add_comm]
  rfl

theorem place?_add_exact {s t : Bool} {u v : Nat} (small : n.natAbs < 2 ^ 53)
    (room : Nat.pow 2 (53 + k) ≤ overflow)
    (sum : signedUnits s u + signedUnits t v = n * Nat.pow 2 k) :
    ((finite s u).add (finite t v)).place? = some (.at (n * Nat.pow 2 k)) := by
  apply place?_of_height
  · rw [Int.natAbs_mul, Int.natAbs_natCast]
    exact Nat.lt_of_lt_of_le (mul_pow_lt small (Nat.le_refl _)) room
  · have exactly := rounded_mul (k := k) small Nat.one_pos
    rw [Int.natCast_one, Int.mul_one] at exactly
    rw [height_add, sum, exactly]

end Autotile.Numeral.Binary64
