import Autotile.Cell.Depth
import Autotile.Proofs.Fault
import Autotile.Proofs.Numeral.Rounding

/-! # Depths that are not rounded

The third of an elevation, the horizontal sum and their sum are rounded, so cells of the same
exact depth may have different depths. They have the same one where the elevations are the same,
and where these are whole horizontal steps and the numbers have no more than 53 bits. -/
namespace Autotile

open Numeral

namespace Cell

variable {c c' : Cell}

/-- The exact depth, in thirds of a horizontal step. -/
def thirds (c : Cell) : Int := layersPerStep * (c.s + c.e) + c.u

theorem depth_of_level (height : c.u = c'.u) (level : c.thirds = c'.thirds) :
    c.depth = c'.depth := by
  have ground : c.s + c.e = c'.s + c'.e := by
    unfold thirds layersPerStep at level
    omega
  unfold depth
  rw [height, ground]

/-- The elevation comes to whole horizontal steps, and the numbers are small. -/
structure Whole (c : Cell) : Prop where
  steps : (layersPerStep : Int) ∣ c.u
  height : c.u.natAbs < layersPerStep * 2 ^ 53
  ground : (c.s + c.e).natAbs < 2 ^ 53

theorem third_whole {n : Int} (small : n.natAbs < 2 ^ 53) :
    third (layersPerStep * n) = .ok (.finite (n < 0) (n.natAbs * Binary64.one)) := by
  unfold third
  rw [Binary64.ofRatio_whole small (by decide)]
  rfl

theorem ground_whole {n : Int} (small : n.natAbs < 2 ^ 53) :
    ground n = .ok (.finite (n < 0) (n.natAbs * Binary64.one)) := by
  unfold ground
  rw [Binary64.ofInt_whole small]
  rfl

/-- The depth is rounded once at most, and from the exact one. -/
theorem Whole.depth_eq (h : c.Whole) {n : Int} (level : c.thirds = layersPerStep * n) :
    c.depth = .ok (Binary64.ofSignedUnits (n * Binary64.one)) := by
  obtain ⟨k, hk⟩ := h.steps
  have small := h.height
  unfold layersPerStep at small hk
  unfold thirds layersPerStep at level
  have steps : k.natAbs < 2 ^ 53 := by omega
  have sum : c.s + c.e + k = n := by omega
  have third := third_whole steps
  rw [layersPerStep, ← hk] at third
  unfold depth
  rw [bind_of_eq_ok third, bind_of_eq_ok (ground_whole h.ground), Binary64.add_whole, sum]
  rfl

theorem Whole.depth_of_level (h : c.Whole) (h' : c'.Whole) (level : c.thirds = c'.thirds) :
    c.depth = c'.depth := by
  obtain ⟨k, hk⟩ := h.steps
  have exactly : c.thirds = layersPerStep * (c.s + c.e + k) := by
    rw [thirds, hk, ← Int.mul_add]
  rw [h.depth_eq exactly, h'.depth_eq (level ▸ exactly)]

end Cell

end Autotile
