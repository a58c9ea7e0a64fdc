import Mathlib.Data.Prod.Lex
import Autotile.Proofs.Numeral.Rounding

/-! # The order of numbers

All numbers but NaN are totally ordered, the infinities below and above the finite ones. A rounded
quotient stands where its count of units does, so rounding keeps the order. -/
namespace Autotile.Numeral.Binary64

/-- The infinities lie in levels of their own, below and above the numbers. -/
def Place.height : Place → Int ×ₗ Int
  | .below => toLex (-1, 0)
  | .at units => toLex (0, units)
  | .above => toLex (1, 0)

theorem Place.lt_eq (p q : Place) : p.lt q = decide (p.height < q.height) := by
  cases p <;> cases q <;> simp [lt, height, Prod.Lex.toLex_lt_toLex]

theorem Place.height_injective : Function.Injective Place.height := by
  intro p q same
  cases p <;> cases q <;> simp_all [height]

theorem lt_irrefl (x : Binary64) : x.lt x = false := by
  unfold lt
  cases x.place? with
  | none => rfl
  | some p =>
    rw [placed, Place.lt_eq]
    exact decide_eq_false (not_lt_of_ge (le_refl p.height))

theorem place?_ofUnits (negative : Bool) (units : Nat) :
    ∃ p, (ofUnits negative units).place? = some p := by
  unfold ofUnits
  by_cases small : units < overflow
  · rw [if_pos small]
    exact ⟨_, rfl⟩
  · rw [if_neg small]
    cases negative <;> exact ⟨_, rfl⟩

/-- A sum of finite numbers may be infinite, but it is a number. -/
theorem place?_add_of_isFinite {x y : Binary64} (hx : x.isFinite = true) (hy : y.isFinite = true) :
    ∃ p, (x.add y).place? = some p := by
  cases x with
  | finite s u =>
    cases y with
    | finite t v =>
      have rounded (n : Int) : ∃ p, (ofSignedUnits n).place? = some p := by
        unfold ofSignedUnits nearest
        exact place?_ofUnits _ _
      unfold add
      split
      case h_7 => exact rounded _
      all_goals first | contradiction | exact ⟨_, rfl⟩
    | infinite => cases hy
    | nan => cases hy
  | infinite => cases hx
  | nan => cases hx

/-- Where a number stands. NaN, which stands nowhere, is put at the bottom. -/
def height (x : Binary64) : Int ×ₗ Int := (x.place?.getD .below).height

theorem lt_eq {x y : Binary64} (hx : ∃ p, x.place? = some p) (hy : ∃ p, y.place? = some p) :
    x.lt y = decide (x.height < y.height) := by
  obtain ⟨p, hp⟩ := hx
  obtain ⟨q, hq⟩ := hy
  unfold lt height
  rw [hp, hq, placed, Place.lt_eq]
  rfl

def reach (n : Int) : Int ×ₗ Int :=
  if n.natAbs < overflow then toLex (0, n) else if n < 0 then toLex (-1, 0) else toLex (1, 0)

theorem overflow_pos : 0 < overflow := by
  obtain ⟨k, l, -, top, -⟩ := room_about_one
  rw [top]
  exact Nat.two_pow_pos l

theorem reach_mono {m n : Int} (h : m ≤ n) : reach m ≤ reach n := by
  unfold reach
  split_ifs <;> rw [Prod.Lex.toLex_le_toLex] <;> omega

theorem reach_lt {m n : Int} (h : m < n) (hm : m.natAbs < overflow) (hn : n.natAbs < overflow) :
    reach m < reach n := by
  unfold reach
  rw [if_pos hm, if_pos hn, Prod.Lex.toLex_lt_toLex]
  exact Or.inr ⟨rfl, h⟩

theorem place?_of_height {x : Binary64} {n : Int} (small : n.natAbs < overflow)
    (h : x.height = reach n) : x.place? = some (.at n) := by
  have same : x.place?.getD .below = .at n := by
    apply Place.height_injective
    rw [reach, if_pos small] at h
    exact h
  cases place : x.place? with
  | none =>
    rw [place] at same
    cases same
  | some p =>
    rw [place] at same
    exact congrArg some same

theorem natAbs_signedUnits (negative : Bool) (units : Nat) :
    (signedUnits negative units).natAbs = units := by
  cases negative <;> simp [signedUnits]

theorem signedUnits_not (negative : Bool) (units : Nat) :
    signedUnits (!negative) units = -signedUnits negative units := by
  cases negative <;> simp [signedUnits]

theorem height_ofUnits (negative : Bool) (units : Nat) :
    (ofUnits negative units).height = reach (signedUnits negative units) := by
  have positive := overflow_pos
  unfold ofUnits reach
  rw [natAbs_signedUnits]
  by_cases small : units < overflow
  · rw [if_pos small, if_pos small]
    rfl
  · rw [if_neg small, if_neg small]
    cases negative with
    | false => exact (if_neg (by simp [signedUnits])).symm
    | true => exact (if_pos (by simp [signedUnits]; omega)).symm

def ofQuotient (n : Int) (den : Nat) : Binary64 := nearest (n < 0) n.natAbs den

/-- A signed quotient, rounded to the units of a number. -/
def rounded (n : Int) (den : Nat) : Int := signedUnits (n < 0) (roundUnits n.natAbs den)

theorem height_ofQuotient (n : Int) (den : Nat) :
    (ofQuotient n den).height = reach (rounded n den) := by
  unfold ofQuotient nearest rounded
  exact height_ofUnits _ _

theorem ofRatio_eq (n : Int) (den : Nat) : ofRatio n den = ofQuotient (n * one) den := by
  have sign : n * one < 0 ↔ n < 0 := by
    have scaled := Int.mul_lt_mul_right (b := n) (c := 0) (Int.natCast_pos.mpr one_pos)
    rwa [Int.zero_mul] at scaled
  unfold ofRatio ofQuotient
  rw [Int.natAbs_mul, Int.natAbs_natCast, decide_eq_decide.mpr sign]

theorem ofInt_eq (n : Int) : ofInt n = ofQuotient (n * one) 1 := ofRatio_eq n 1

theorem eq_finite_of_isFinite {n : Int} {den : Nat} (h : (ofQuotient n den).isFinite = true) :
    ofQuotient n den = .finite (n < 0) (roundUnits n.natAbs den) := by
  unfold ofQuotient nearest ofUnits at *
  by_cases small : roundUnits n.natAbs den < overflow
  · rw [if_pos small]
  · rw [if_neg small] at h
    cases h

theorem rounded_mono {m n : Int} {den : Nat} (pos : 0 < den) (h : m ≤ n) :
    rounded m den ≤ rounded n den := by
  unfold rounded signedUnits
  by_cases hm : m < 0
  · by_cases hn : n < 0
    · have units : roundUnits n.natAbs den ≤ roundUnits m.natAbs den :=
        roundUnits_mono pos (by omega)
      simp only [hm, hn, decide_true, if_true]
      omega
    · simp only [hm, hn, decide_true, decide_false, if_true, Bool.false_eq_true, if_false]
      omega
  · have hn : ¬n < 0 := by omega
    have units : roundUnits m.natAbs den ≤ roundUnits n.natAbs den :=
      roundUnits_mono pos (by omega)
    simp only [hm, hn, decide_false, Bool.false_eq_true, if_false]
    omega

theorem rounded_near {n : Int} {den k : Nat} (pos : 0 < den)
    (small : n.natAbs < Nat.pow 2 (53 + k) * den) :
    2 * n ≤ 2 * (rounded n den * den) + den * Nat.pow 2 k ∧
      2 * (rounded n den * den) ≤ 2 * n + den * Nat.pow 2 k := by
  have near := roundUnits_near pos small
  unfold rounded signedUnits
  by_cases negative : n < 0
  · have size : (n.natAbs : Int) = -n := by omega
    simp only [negative, decide_true, if_true, Int.neg_mul]
    omega
  · have size : (n.natAbs : Int) = n := by omega
    simp only [negative, decide_false, Bool.false_eq_true, if_false]
    omega

theorem natAbs_rounded_sub_le {n : Int} {den k : Nat} (pos : 0 < den)
    (small : n.natAbs < Nat.pow 2 (54 + k) * den) :
    (rounded n den * den - n).natAbs ≤ den * Nat.pow 2 k := by
  have near := rounded_near (n := n) (k := 1 + k) pos (by rwa [← Nat.add_assoc])
  have steps : den * Nat.pow 2 (1 + k) = 2 * (den * Nat.pow 2 k) := by
    rw [Nat.mul_left_comm]
    exact congrArg _ (Nat.pow_add 2 1 k)
  rw [← Int.natCast_mul, steps] at near
  omega

theorem natAbs_rounded_le {n : Int} {den k : Nat} (pos : 0 < den)
    (h : n.natAbs ≤ Nat.pow 2 k * den) : (rounded n den).natAbs ≤ Nat.pow 2 k := by
  unfold rounded
  rw [natAbs_signedUnits]
  exact roundUnits_le_pow pos h

theorem rounded_mul {n : Int} {den k : Nat} (small : n.natAbs < 2 ^ 53) (pos : 0 < den) :
    rounded (n * Nat.pow 2 k * den) den = n * Nat.pow 2 k := by
  have sign : decide (n * Nat.pow 2 k * den < 0) = decide (n < 0) := by
    have scale : (0 : Int) < Nat.pow 2 k * den :=
      Int.mul_pos (Int.natCast_pos.mpr (Nat.two_pow_pos k)) (Int.natCast_pos.mpr pos)
    have scaled := Int.mul_lt_mul_right (b := n) (c := 0) scale
    rw [Int.zero_mul, ← Int.mul_assoc] at scaled
    exact decide_eq_decide.mpr scaled
  unfold rounded
  rw [sign, Int.natAbs_mul, Int.natAbs_mul, Int.natAbs_natCast, Int.natAbs_natCast,
    roundUnits_mul small pos]
  exact signedUnits_mul n _

theorem rounded_whole {n : Int} {den : Nat} (small : n.natAbs < 2 ^ 53) (pos : 0 < den) :
    rounded (n * one * den) den = n * one := by
  obtain ⟨k, l, unit, -, -⟩ := room_about_one
  rw [unit]
  exact rounded_mul small pos

theorem rounded_one {n : Int} (small : n.natAbs < 2 ^ 53) : rounded (n * one) 1 = n * one := by
  have exactly := rounded_whole small Nat.one_pos
  rwa [Int.natCast_one, Int.mul_one] at exactly

theorem height_add (s t : Bool) (u v : Nat) :
    ((finite s u).add (finite t v)).height =
      reach (rounded (signedUnits s u + signedUnits t v) 1) := by
  by_cases zeros : (s = true ∧ u = 0) ∧ t = true ∧ v = 0
  · obtain ⟨⟨rfl, rfl⟩, rfl, rfl⟩ := zeros
    decide +kernel
  · rw [add_finite zeros]
    exact height_ofQuotient _ 1

end Autotile.Numeral.Binary64
