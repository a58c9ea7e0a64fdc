import Autotile.Numeral.Binary64
import Mathlib.Algebra.Ring.Nat

/-! # What rounding does

A number of 53 significant bits is not rounded. Any other is off by no more than half a step, and
a greater quotient is not rounded to a lesser number. -/
namespace Autotile.Numeral.Binary64

variable {den k m n p : Nat}

theorem mul_pow_lt (small : n < 2 ^ 53) {l : Nat} (room : 53 + k ≤ l) :
    n * Nat.pow 2 k < Nat.pow 2 l := by
  calc
    n * 2 ^ k < 2 ^ 53 * 2 ^ k := Nat.mul_lt_mul_of_pos_right small (Nat.two_pow_pos k)
    _ = 2 ^ (53 + k) := (Nat.pow_add 2 53 k).symm
    _ ≤ 2 ^ l := Nat.pow_le_pow_right Nat.two_pos room

theorem excess_le_of_lt (small : n < Nat.pow 2 (53 + k)) : excess n ≤ k := by
  unfold excess
  by_cases zero : n = 0
  · rw [zero, Nat.log2_zero]
    omega
  · have low := (Nat.log2_lt zero).mpr small
    omega

theorem excess_le (small : n < 2 ^ 53) : excess (n * Nat.pow 2 k) ≤ k :=
  excess_le_of_lt (mul_pow_lt small (Nat.le_refl (53 + k)))

theorem excess_mono (h : m ≤ n) : excess m ≤ excess n := by
  have low : m.log2 ≤ n.log2 := by
    by_cases zero : m = 0
    · rw [zero, Nat.log2_zero]
      exact Nat.zero_le _
    · have nonzero : n ≠ 0 := by omega
      exact (Nat.le_log2 nonzero).mpr (Nat.le_trans (Nat.log2_self_le zero) h)
  unfold excess
  omega

theorem roundEven_mul (m : Nat) (pos : 0 < den) : roundEven (m * den) den = m := by
  unfold roundEven
  rw [Nat.mul_div_cancel m pos, Nat.mul_mod_left]
  refine if_neg ?_
  simp [Nat.ne_of_lt pos]

theorem roundEven_cases (n den : Nat) :
    roundEven n den = n / den ∨ roundEven n den = n / den + 1 := by
  unfold roundEven
  dsimp only
  split
  · right
    rfl
  · left
    rfl

theorem roundEven_mono (h : m ≤ n) : roundEven m den ≤ roundEven n den := by
  have quotients : m / den ≤ n / den := Nat.div_le_div_right h
  have low := roundEven_cases m den
  have high := roundEven_cases n den
  by_cases same : m / den = n / den
  · have remainders : m % den ≤ n % den := by
      have hm := Nat.div_add_mod m den
      have hn := Nat.div_add_mod n den
      rw [same] at hm
      omega
    unfold roundEven
    rw [same]
    simp only [Bool.or_eq_true, Bool.and_eq_true, decide_eq_true_eq]
    split <;> split <;> omega
  · omega

theorem roundEven_near (n : Nat) (pos : 0 < den) :
    2 * n ≤ 2 * (roundEven n den * den) + den ∧ 2 * (roundEven n den * den) ≤ 2 * n + den := by
  have whole := Nat.div_add_mod n den
  have less := Nat.mod_lt n pos
  unfold roundEven
  simp only [Bool.or_eq_true, Bool.and_eq_true, decide_eq_true_eq]
  rw [Nat.mul_comm] at whole
  split
  · rw [Nat.add_mul]
    omega
  · omega

theorem roundEven_grid {B : Nat} (pos : 0 < den) (here : Nat.pow 2 p ∣ B) :
    roundEven (B * den) (den * Nat.pow 2 p) * Nat.pow 2 p = B := by
  obtain ⟨k, rfl⟩ := here
  have whole : Nat.pow 2 p * k * den = k * (den * Nat.pow 2 p) := by
    rw [Nat.mul_comm _ k, Nat.mul_assoc, Nat.mul_comm den]
  have steps : 0 < den * Nat.pow 2 p := Nat.mul_pos pos (Nat.two_pow_pos p)
  rw [whole, roundEven_mul k steps, Nat.mul_comm]

theorem roundUnits_mul (small : n < 2 ^ 53) (pos : 0 < den) :
    roundUnits (n * Nat.pow 2 k * den) den = n * Nat.pow 2 k := by
  unfold roundUnits
  rw [Nat.mul_div_cancel _ pos]
  exact roundEven_grid pos (Nat.dvd_mul_left_of_dvd (Nat.pow_dvd_pow 2 (excess_le small)) n)

theorem roundUnits_le_pow (pos : 0 < den) (h : n ≤ Nat.pow 2 p * den) :
    roundUnits n den ≤ Nat.pow 2 p := by
  have quotient : n / den ≤ 2 ^ p := Nat.div_le_of_le_mul (Nat.mul_comm den _ ▸ h)
  have fine : excess (n / den) ≤ p := by
    have low := excess_mono quotient
    have top : excess (2 ^ p) ≤ p := by
      unfold excess
      rw [Nat.log2_two_pow]
      omega
    omega
  calc
    roundUnits n den ≤ _ := Nat.mul_le_mul_right _ (roundEven_mono h)
    _ = Nat.pow 2 p := roundEven_grid pos (Nat.pow_dvd_pow 2 fine)

theorem pow_le_roundUnits (pos : 0 < den) (fine : excess (n / den) ≤ p)
    (h : Nat.pow 2 p * den ≤ n) : Nat.pow 2 p ≤ roundUnits n den := by
  calc
    Nat.pow 2 p = _ := (roundEven_grid pos (Nat.pow_dvd_pow 2 fine)).symm
    _ ≤ roundUnits n den := Nat.mul_le_mul_right _ (roundEven_mono h)

/-- A greater quotient is not rounded to a lesser number: either both are rounded with the same
step, or there is a power of two between them that neither is rounded across. -/
theorem roundUnits_mono (pos : 0 < den) (h : m ≤ n) : roundUnits m den ≤ roundUnits n den := by
  have quotients : m / den ≤ n / den := Nat.div_le_div_right h
  have steps := excess_mono quotients
  by_cases same : excess (m / den) = excess (n / den)
  · unfold roundUnits
    rw [same]
    exact Nat.mul_le_mul_right _ (roundEven_mono h)
  · have logs : (n / den).log2 = 52 + excess (n / den) ∧ (m / den).log2 < (n / den).log2 := by
      unfold excess at *
      omega
    have below : m / den < 2 ^ (n / den).log2 :=
      Nat.lt_of_lt_of_le Nat.lt_log2_self (Nat.pow_le_pow_right Nat.two_pos logs.2)
    have nonzero : n / den ≠ 0 := by
      intro zero
      rw [zero] at logs
      simp at logs
    have above := Nat.log2_self_le nonzero
    calc
      roundUnits m den ≤ Nat.pow 2 (n / den).log2 :=
        roundUnits_le_pow pos (Nat.le_of_lt ((Nat.div_lt_iff_lt_mul pos).mp below))
      _ ≤ roundUnits n den :=
        pow_le_roundUnits pos (by omega) ((Nat.le_div_iff_mul_le pos).mp above)

/-- The rounded quotient is off by no more than half a step. -/
theorem roundUnits_near (pos : 0 < den) (small : n < Nat.pow 2 (53 + k) * den) :
    2 * n ≤ 2 * (roundUnits n den * den) + den * Nat.pow 2 k ∧
      2 * (roundUnits n den * den) ≤ 2 * n + den * Nat.pow 2 k := by
  have fine := excess_le_of_lt ((Nat.div_lt_iff_lt_mul pos).mpr small)
  have step : den * Nat.pow 2 (excess (n / den)) ≤ den * Nat.pow 2 k :=
    Nat.mul_le_mul_left den (Nat.pow_le_pow_right Nat.two_pos fine)
  have steps : 0 < den * Nat.pow 2 (excess (n / den)) := Nat.mul_pos pos (Nat.two_pow_pos _)
  have near := roundEven_near n steps
  have rounded : roundUnits n den * den = roundEven n (den * Nat.pow 2 (excess (n / den))) *
      (den * Nat.pow 2 (excess (n / den))) := by
    unfold roundUnits
    dsimp only
    rw [Nat.mul_assoc, Nat.mul_comm (Nat.pow 2 _) den]
  omega

theorem room_about_one :
    ∃ k l, one = Nat.pow 2 k ∧ overflow = Nat.pow 2 l ∧ 5 ≤ k ∧ 53 + k ≤ l := by
  unfold one overflow
  exact ⟨_, _, Eq.refl _, Eq.refl _, by decide, by decide⟩

theorem nearest_whole (negative : Bool) (small : n < 2 ^ 53) (pos : 0 < den) :
    nearest negative (n * one * den) den = .finite negative (n * one) := by
  obtain ⟨k, l, unit, top, -, room⟩ := room_about_one
  unfold nearest ofUnits
  rw [top, unit, roundUnits_mul small pos]
  exact if_pos (mul_pow_lt small room)

theorem ofInt_whole {n : Int} (small : n.natAbs < 2 ^ 53) :
    ofInt n = .finite (n < 0) (n.natAbs * one) := by
  have exactly := nearest_whole (decide (n < 0)) small Nat.one_pos
  rwa [Nat.mul_one] at exactly

theorem ofRatio_whole {n : Int} (small : n.natAbs < 2 ^ 53) (pos : 0 < den) :
    ofRatio (den * n) den = .finite (n < 0) (n.natAbs * one) := by
  have sign : decide ((den : Int) * n < 0) = decide (n < 0) := by
    have scaled := Int.mul_lt_mul_left (b := n) (c := 0) (Int.natCast_pos.mpr pos)
    rw [Int.mul_zero] at scaled
    exact decide_eq_decide.mpr scaled
  unfold ofRatio
  rw [sign, Int.natAbs_mul, Int.natAbs_natCast, Nat.mul_comm den, Nat.mul_right_comm]
  exact nearest_whole _ small pos

theorem signedUnits_mul (n : Int) (m : Nat) : signedUnits (n < 0) (n.natAbs * m) = n * m := by
  unfold signedUnits
  rw [Int.natCast_mul]
  by_cases negative : n < 0
  · rw [if_pos (decide_eq_true negative), ← Int.neg_mul]
    congr 1
    omega
  · rw [if_neg (by simpa using negative)]
    congr 1
    omega

theorem one_pos : 0 < one := by
  obtain ⟨k, l, unit, -, -⟩ := room_about_one
  rw [unit]
  exact Nat.two_pow_pos k

/-- Two negative zeros apart, finite numbers are added exactly and the sum is rounded. -/
theorem add_finite {s t : Bool} {u v : Nat}
    (nonzero : ¬((s = true ∧ u = 0) ∧ t = true ∧ v = 0)) :
    (finite s u).add (finite t v) = ofSignedUnits (signedUnits s u + signedUnits t v) := by
  unfold add
  split <;> simp_all

theorem add_whole (m n : Int) :
    (finite (m < 0) (m.natAbs * one)).add (finite (n < 0) (n.natAbs * one)) =
      ofSignedUnits ((m + n) * one) := by
  rw [Int.add_mul, ← signedUnits_mul m, ← signedUnits_mul n]
  apply add_finite
  rintro ⟨⟨negative, zero⟩, -⟩
  have below := of_decide_eq_true negative
  have whole := (Nat.mul_eq_zero.mp zero).resolve_right (Nat.ne_of_gt one_pos)
  omega

end Autotile.Numeral.Binary64
