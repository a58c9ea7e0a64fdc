import Autotile.Proofs.Datum.Reading
import Autotile.Proofs.Picking.Outline

/-! # The face at a point

Half of a small integer is a number, so the borders of the top face are where they should be, and
each point inside the outline is on exactly one face. -/
namespace Autotile

open Numeral Binary64

namespace Number

variable {n : Int} {r : Binary64} {units : Int}

theorem le_real (place : r.place? = some (.at units)) :
    (int n).le (.real r) = decide (n * one ≤ units) := by
  unfold le place?
  dsimp only
  rw [place]
  change (!decide (units < n * one)) = _
  rw [← decide_not]
  exact decide_eq_decide.mpr Int.not_lt

theorem half_of_finite {negative : Bool} {units : Nat}
    (quotient : ofRatio n 2 = .finite negative units) :
    half (.int n) = .ok (.finite negative units) := by
  -- the cases are told apart before the integer is put in, else the quotient would be computed
  generalize number : Number.int n = x
  fun_cases half x with
  | case1 => cases number
  | case2 m _ _ found =>
    obtain rfl := Number.int.inj number
    rw [← found, quotient]
  | case3 m infinite =>
    obtain rfl := Number.int.inj number
    exact absurd quotient (infinite negative units)

end Number

namespace Sprite

section Borders

variable {x y : Int}

def halfOne : Nat := Nat.pow 2 1073

theorem one_eq_halfOne : one = halfOne * 2 := by
  decide +kernel

theorem room_about_halfOne :
    ∃ k, halfOne = Nat.pow 2 k ∧ Nat.pow 2 (53 + k) ≤ overflow := by
  obtain ⟨l, high, unit, top, fine, room⟩ := room_about_one
  obtain ⟨k, rfl⟩ := Nat.exists_eq_add_of_le' (Nat.le_trans (by decide : 1 ≤ 5) fine)
  have twice : halfOne * 2 = Nat.pow 2 k * 2 := by
    rw [← one_eq_halfOne, unit]
    exact Nat.pow_succ 2 k
  refine ⟨k, Nat.eq_of_mul_eq_mul_right Nat.two_pos twice, ?_⟩
  rw [top]
  exact Nat.pow_le_pow_right Nat.two_pos (by omega)

theorem halfOne_pos : (0 : Int) < halfOne := by
  obtain ⟨k, unit, -⟩ := room_about_halfOne
  rw [unit]
  exact Int.natCast_pos.mpr (Nat.two_pow_pos k)

theorem halves_eq (m : Nat) : halves m = .finite false (m * halfOne) := by
  unfold halves halfOne
  rfl

theorem half_units (small : x.natAbs ≤ 2 ^ 52) : ∃ s u, Number.half (.int x) = .ok (.finite s u) ∧
    signedUnits s u = x * halfOne := by
  obtain ⟨s, u, quotient, units⟩ := exists_units_ofRatio small Nat.two_pos
  obtain ⟨k, unit, -⟩ := room_about_halfOne
  refine ⟨s, u, Number.half_of_finite quotient, ?_⟩
  rw [units, one_eq_halfOne, Int.natCast_mul, ← Int.mul_assoc, unit]
  exact rounded_mul (by omega) Nat.two_pos

theorem place?_halves_add {s : Bool} {u m : Nat} {n : Int} (small : (m + n).natAbs < 2 ^ 53)
    (units : signedUnits s u = n * halfOne) :
    ((halves m).add (.finite s u)).place? = some (.at ((m + n) * halfOne)) := by
  obtain ⟨k, unit, room⟩ := room_about_halfOne
  have sum : signedUnits false (m * halfOne) + signedUnits s u = (m + n) * halfOne := by
    rw [units, Int.add_mul]
    exact congrArg (· + n * (halfOne : Int)) (Int.natCast_mul m halfOne)
  rw [halves_eq]
  rw [unit] at sum ⊢
  exact place?_add_exact small room sum

theorem leftBorder_int (small : x.natAbs ≤ 2 ^ 51) : ∃ border, leftBorder (.int x) = .ok border ∧
    border.place? = some (.at ((15 + x) * halfOne)) := by
  obtain ⟨s, u, half, units⟩ := half_units (x := x) (by omega)
  unfold leftBorder
  rw [bind_of_eq_ok half]
  exact ⟨_, rfl, place?_halves_add (m := 15) (by omega) units⟩

theorem rightBorder_int (small : x.natAbs ≤ 2 ^ 51) : ∃ border, rightBorder (.int x) = .ok border ∧
    border.place? = some (.at ((47 - x) * halfOne)) := by
  obtain ⟨s, u, half, units⟩ := half_units (x := x) (by omega)
  have negated : signedUnits (!s) u = -x * halfOne := by
    rw [signedUnits_not, units, Int.neg_mul]
  unfold rightBorder
  rw [bind_of_eq_ok half]
  exact ⟨_, rfl, place?_halves_add (m := 47) (by omega) negated⟩

theorem le_border {border : Binary64} {n : Int} (place : border.place? = some (.at (n * halfOne))) :
    (Number.int y).le (.real border) = decide (2 * y ≤ n) := by
  have doubled : y * (halfOne * 2 : Nat) = 2 * y * halfOne := by
    push_cast
    ring
  rw [Number.le_real place, one_eq_halfOne, doubled]
  exact decide_eq_decide.mpr (Int.mul_le_mul_right halfOne_pos)

def OnTop (x y : Int) : Prop := if x < 16 then 2 * y ≤ 15 + x else 2 * y ≤ 47 - x

instance (x y : Int) : Decidable (OnTop x y) := inferInstanceAs (Decidable (ite _ _ _))

theorem face_int (small : x.natAbs ≤ 2 ^ 51) : face (.int x) (.int y) =
    .ok (if OnTop x y then .up else if x < 16 then .south else .east) := by
  unfold face OnTop
  rw [Number.lt_int]
  by_cases left : x < 16
  · obtain ⟨border, reached, place⟩ := leftBorder_int small
    rw [if_pos (decide_eq_true left), bind_of_eq_ok reached, le_border place]
    simp only [left, if_true, decide_eq_true_eq]
    rfl
  · obtain ⟨border, reached, place⟩ := rightBorder_int small
    rw [if_neg (by simpa using left), bind_of_eq_ok reached, le_border place]
    simp only [left, if_false, decide_eq_true_eq]
    rfl

end Borders

section Given

variable {given given' : Datum} {x y : Number} (across : Number.ofDatum given = .ok x)
  (down : Number.ofDatum given' = .ok y)
include across down

theorem sideAt_of_numbers : sideAt given given' = face x y := by
  have above_or (border : Binary64) (other : Direction) : (do
      let y ← Number.ofDatum given'
      if y.le (.real border) then return .up
      return other) = Except.ok (if y.le (.real border) then .up else other) := by
    rw [bind_of_eq_ok down]
    by_cases top : y.le (.real border) = true
    · rw [if_pos top, if_pos top]
      rfl
    · rw [if_neg top, if_neg top]
      rfl
  unfold sideAt face
  rw [bind_of_eq_ok across]
  by_cases left : x.lt (.int 16) = true
  · simp only [if_pos left, above_or]
    rfl
  · simp only [if_neg left, above_or]
    rfl

theorem pickAt_of_numbers : pickAt given given' = faceAt x y := by
  unfold pickAt faceAt
  rw [bind_of_eq_ok (containsAt_of_numbers across down), sideAt_of_numbers across down]
  by_cases inside : contains x y = true
  · rw [if_pos inside, if_pos inside]
    cases face x y <;> rfl
  · rw [if_neg inside, if_neg inside]
    rfl

end Given

/-- A point with integer coordinates hits the tile if it is in the convex region, and then it is on
the top face or on the one side that is below it. -/
theorem faces_partition_outline (x y : Int) :
    containsAt (.int x) (.int y) = .ok (decide (Outlined x y)) ∧
    pickAt (.int x) (.int y) = .ok (if Outlined x y then
      some (if OnTop x y then .up else if x < 16 then .south else .east) else none) := by
  constructor
  · rw [containsAt_of_numbers rfl rfl, contains_int]
  · rw [pickAt_of_numbers rfl rfl, faceAt, contains_int]
    by_cases inside : Outlined x y
    · have small : x.natAbs ≤ 2 ^ 51 := by
        obtain ⟨-, ⟨left, right⟩, -⟩ := inside
        omega
      rw [if_pos (decide_eq_true inside), if_pos inside, face_int small]
      rfl
    · rw [if_neg (by simpa using inside), if_neg inside]

end Sprite

end Autotile
