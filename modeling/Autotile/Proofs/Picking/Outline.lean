import Autotile.Picking
import Autotile.Proofs.Fault
import Autotile.Proofs.Numeral.Sums

/-! # The points inside the outline

The edges that a ray meets are counted at places that are rounded, but rounding does not take an
edge to the other side of a point with integer coordinates. So the points with an odd count are
those of a convex region, however far away the others are. -/
namespace Autotile

open Numeral

namespace Number

variable {n : Int} {r : Binary64} {units : Int}

theorem lt_int (m n : Int) : (int m).lt (.int n) = decide (m < n) :=
  decide_eq_decide.mpr (Int.mul_lt_mul_right (Int.natCast_pos.mpr Binary64.one_pos))

theorem lt_real (place : r.place? = some (.at units)) :
    (int n).lt (.real r) = decide (n * Binary64.one < units) := by
  unfold lt place?
  dsimp only
  rw [place]
  rfl

end Number

namespace Sprite

section Crossing

variable {x y : Int} {edge : Point × Point}

def run (edge : Point × Point) : Int := edge.2.x - edge.1.x

def rise (edge : Point × Point) : Int := edge.2.y - edge.1.y

def lead (y : Int) (edge : Point × Point) : Int :=
  if rise edge < 0 then -(run edge * (y - edge.1.y)) else run edge * (y - edge.1.y)

theorem natAbs_lead (y : Int) (edge : Point × Point) :
    (lead y edge).natAbs = (run edge).natAbs * (y - edge.1.y).natAbs := by
  unfold lead
  split
  · rw [Int.natAbs_neg, Int.natAbs_mul]
  · rw [Int.natAbs_mul]

theorem edgeAt_int (y : Int) (edge : Point × Point) : edgeAt (.int y) edge =
    (Binary64.ofRatio (lead y edge) (rise edge).natAbs).add (Binary64.ofInt edge.1.x) :=
  rfl

def Straddled (y : Int) (edge : Point × Point) : Prop := ¬(y < edge.1.y ↔ y < edge.2.y)

/-- The ray to the right of a point meets the edge, as it is without rounding. -/
def Meets (x y : Int) (edge : Point × Point) : Prop :=
  Straddled y edge ∧ (rise edge).natAbs * x < (rise edge).natAbs * edge.1.x + lead y edge

instance (x y : Int) (edge : Point × Point) : Decidable (Meets x y edge) :=
  inferInstanceAs (Decidable (¬(_ ↔ _) ∧ _))

theorem straddles_iff : straddles (.int y) edge = true ↔ Straddled y edge := by
  unfold straddles
  rw [Number.lt_int, Number.lt_int, bne_iff_ne, Ne, decide_eq_decide]
  exact Iff.rfl

theorem edges_small : ∀ edge ∈ edges,
    edge.1.x.natAbs ≤ 32 ∧ (run edge).natAbs ≤ 32 ∧ (rise edge).natAbs ≤ 9 := by
  decide

/-- Rounding does not take an edge to the other side of a point. -/
theorem lt_edgeAt_iff (member : edge ∈ edges) (straddled : Straddled y edge) :
    (Number.int x).lt (.real (edgeAt (.int y) edge)) = true ↔
      (rise edge).natAbs * x < (rise edge).natAbs * edge.1.x + lead y edge := by
  obtain ⟨left, wide, high⟩ := edges_small edge member
  have within : (y - edge.1.y).natAbs ≤ (rise edge).natAbs ∧ 0 < (rise edge).natAbs := by
    unfold Straddled at straddled
    unfold rise
    omega
  have size : (lead y edge).natAbs ≤ 2 ^ 48 := by
    rw [natAbs_lead]
    exact Nat.le_trans (Nat.mul_le_mul wide (Nat.le_trans within.1 high)) (by decide)
  have corner : edge.1.x.natAbs ≤ 2 ^ 49 := Nat.le_trans left (by decide)
  rw [edgeAt_int, Number.lt_real (Binary64.place?_ratio_add within.2 corner size),
    decide_eq_true_iff]
  exact Binary64.lt_sumUnits_iff within.2 (Nat.le_succ_of_le high) corner size

theorem crosses_iff (member : edge ∈ edges) :
    crosses (.int x) (.int y) edge = true ↔ Meets x y edge := by
  unfold crosses Meets
  rw [Bool.and_eq_true, straddles_iff]
  exact and_congr_right (lt_edgeAt_iff member)

end Crossing

/-- The convex region of the outline. Of its borders the top and those on the left belong to it. -/
def Outlined (x y : Int) : Prop :=
  (0 ≤ y ∧ y < 23) ∧ (0 ≤ x ∧ x < 32) ∧
  (105 ≤ 7 * x + 15 * y ∧ 7 * x - 15 * y < 119) ∧
  -240 ≤ 7 * x - 15 * y ∧ 7 * x + 15 * y < 464

instance (x y : Int) : Decidable (Outlined x y) := inferInstanceAs (Decidable (_ ∧ _))

theorem countP_meets (x y : Int) : edges.countP (Meets x y ·) =
    (if ¬(y < 16 ↔ y < 23) ∧ 7 * x < 15 * (y - 16) then 1 else 0) +
    (if ¬(y < 23 ↔ y < 16) ∧ 7 * x + 15 * (y - 23) < 119 then 1 else 0) +
    (if ¬(y < 16 ↔ y < 7) ∧ x < 32 then 1 else 0) +
    (if ¬(y < 7 ↔ y < 0) ∧ 7 * x < 224 + 15 * (y - 7) then 1 else 0) +
    (if ¬(y < 0 ↔ y < 7) ∧ 7 * x + 15 * y < 105 then 1 else 0) +
    (if ¬(y < 7 ↔ y < 16) ∧ x < 0 then 1 else 0) := by
  have right : 9 * x < 288 ↔ x < 32 := by omega
  have left : 9 * x < 0 ↔ x < 0 := by omega
  simp [edges, outline, List.countP_cons, Meets, Straddled, rise, run, lead, right, left]

theorem odd_two_iff (p q : Prop) [Decidable p] [Decidable q] :
    ((if p then 1 else 0) + if q then 1 else 0) % 2 = 1 ↔ ¬(p ↔ q) := by
  by_cases hp : p <;> by_cases hq : q <;> simp [hp, hq]

theorem odd_meets_iff (x y : Int) : edges.countP (Meets x y ·) % 2 = 1 ↔ Outlined x y := by
  rw [countP_meets, Outlined]
  have bands : (y < 0 ∨ 23 ≤ y) ∨ (0 ≤ y ∧ y < 7) ∨ (7 ≤ y ∧ y < 16) ∨ 16 ≤ y ∧ y < 23 := by
    omega
  rcases bands with outside | upper | middle | lower
  · simp (disch := omega) only [if_neg]
    omega
  -- at every height of the sprite two edges are straddled, one on its left and one on its right
  all_goals
    simp (disch := omega) only [if_neg, Nat.zero_add, Nat.add_zero, odd_two_iff]
    omega

theorem contains_int (x y : Int) : contains (.int x) (.int y) = decide (Outlined x y) := by
  have same : edges.countP (crosses (.int x) (.int y)) = edges.countP (Meets x y ·) := by
    apply List.countP_congr
    intro edge member
    rw [crosses_iff member, decide_eq_true_iff]
  unfold contains
  rw [same]
  exact decide_eq_decide.mpr (odd_meets_iff x y)

theorem containsAt_of_numbers {given given' : Datum} {x y : Number}
    (across : Number.ofDatum given = .ok x) (down : Number.ofDatum given' = .ok y) :
    containsAt given given' = .ok (contains x y) := by
  unfold containsAt
  rw [bind_of_eq_ok down]
  by_cases met : edges.any (straddles y) = true
  · rw [if_pos met, bind_of_eq_ok across]
    rfl
  · have none : edges.countP (crosses x y) = 0 := by
      apply List.countP_eq_zero.mpr
      intro edge member crossed
      obtain ⟨straddled, -⟩ := Bool.and_eq_true_iff.mp crossed
      exact met (List.any_eq_true.mpr ⟨edge, member, straddled⟩)
    rw [if_neg met, contains, none]
    rfl

end Sprite

end Autotile
