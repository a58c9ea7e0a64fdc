import Autotile.Proofs.Cell.Depth
import Autotile.Proofs.Numeral.Sums

/-! # How far rounding takes a depth

Rounding never takes a cell behind one that is no farther to the front and no higher. Between cells
whose numbers are small it leaves every difference of exact depth. -/
namespace Autotile.Cell

open Numeral Binary64

variable {c c' : Cell} {x y : Binary64}

theorem eq_of_guard {fault : Fault}
    (h : (if x.isFinite then .ok x else .error fault : Except Fault Binary64) = .ok y) :
    x = y ∧ x.isFinite = true := by
  by_cases finite : x.isFinite = true
  · rw [if_pos finite] at h
    exact ⟨Except.ok.inj h, finite⟩
  · rw [if_neg finite] at h
    cases h

theorem depth_eq_ok (h : c.depth = .ok x) :
    (ofInt (c.s + c.e)).add (ofRatio c.u layersPerStep) = x ∧
    (ofInt (c.s + c.e)).isFinite = true ∧ (ofRatio c.u layersPerStep).isFinite = true := by
  obtain ⟨third, ht, h⟩ := eq_ok_of_bind h
  obtain ⟨ground, hg, h⟩ := eq_ok_of_bind h
  obtain rfl := Except.ok.inj h
  unfold Cell.third at ht
  unfold Cell.ground at hg
  obtain ⟨rfl, finite⟩ := eq_of_guard ht
  obtain ⟨rfl, finite'⟩ := eq_of_guard hg
  exact ⟨rfl, finite', finite⟩

theorem place?_depth (h : c.depth = .ok x) : ∃ p, x.place? = some p := by
  obtain ⟨rfl, finite, finite'⟩ := depth_eq_ok h
  exact place?_add_of_isFinite finite finite'

/-- The depth in units of a number, rounded at every step but never infinite. -/
def depthUnits (c : Cell) : Int :=
  rounded (rounded ((c.s + c.e) * one) 1 + rounded (c.u * one) layersPerStep) 1

theorem height_depth (h : c.depth = .ok x) : x.height = reach c.depthUnits := by
  obtain ⟨rfl, finite, finite'⟩ := depth_eq_ok h
  rw [ofInt_eq] at finite ⊢
  rw [ofRatio_eq] at finite' ⊢
  rw [eq_finite_of_isFinite finite, eq_finite_of_isFinite finite', height_add]
  rfl

theorem height_le_of_le (hx : c.depth = .ok x) (hy : c'.depth = .ok y)
    (front : c.s + c.e ≤ c'.s + c'.e) (up : c.u ≤ c'.u) : x.height ≤ y.height := by
  rw [height_depth hx, height_depth hy]
  have ground : rounded ((c.s + c.e) * one) 1 ≤ rounded ((c'.s + c'.e) * one) 1 :=
    rounded_mono Nat.one_pos (Int.mul_le_mul_of_nonneg_right front (Int.natCast_nonneg one))
  have third : rounded (c.u * one) layersPerStep ≤ rounded (c'.u * one) layersPerStep :=
    rounded_mono (by decide) (Int.mul_le_mul_of_nonneg_right up (Int.natCast_nonneg one))
  exact reach_mono (rounded_mono Nat.one_pos (Int.add_le_add ground third))

structure Within (n : Nat) (c : Cell) : Prop where
  s : c.s.natAbs ≤ n
  e : c.e.natAbs ≤ n
  u : c.u.natAbs ≤ n

/-- The depth of a cell near the origin is off by less than half of a third. -/
theorem Within.depthUnits_near (h : c.Within (2 ^ 48)) :
    c.depthUnits.natAbs < overflow ∧
    2 * (layersPerStep * c.depthUnits - c.thirds * one).natAbs < one := by
  have sum : (c.s + c.e).natAbs ≤ 2 ^ 49 := by
    have s := h.s
    have e := h.e
    omega
  have added : c.depthUnits = sumUnits (c.s + c.e) c.u layersPerStep := rfl
  obtain ⟨finite, near⟩ := sumUnits_near (show 0 < layersPerStep by decide) sum h.u
  rw [← added] at finite near
  refine ⟨finite, ?_⟩
  unfold thirds
  unfold layersPerStep at near ⊢
  omega

theorem Within.height_lt (h : c.Within (2 ^ 48)) (h' : c'.Within (2 ^ 48)) (hx : c.depth = .ok x)
    (hy : c'.depth = .ok y) (less : c.thirds < c'.thirds) : x.height < y.height := by
  obtain ⟨small, near⟩ := h.depthUnits_near
  obtain ⟨small', near'⟩ := h'.depthUnits_near
  have gap : (c.thirds + 1) * one ≤ c'.thirds * one :=
    Int.mul_le_mul_of_nonneg_right less (Int.natCast_nonneg one)
  rw [Int.add_mul, Int.one_mul] at gap
  have apart : c.depthUnits < c'.depthUnits := by
    unfold layersPerStep at near near'
    omega
  rw [height_depth hx, height_depth hy]
  exact reach_lt apart small small'

theorem thirds_lt_of_le (apart : c ≠ c') (south : c.s ≤ c'.s) (east : c.e ≤ c'.e)
    (up : c.u ≤ c'.u) : c.thirds < c'.thirds := by
  have differ : ¬(c.s = c'.s ∧ c.e = c'.e ∧ c.u = c'.u) := by
    rintro ⟨hs, he, hu⟩
    exact apart (Cell.ext hs he hu)
  unfold thirds layersPerStep
  omega

end Autotile.Cell
