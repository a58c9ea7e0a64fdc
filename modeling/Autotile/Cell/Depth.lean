import Autotile.Cell.Basic
import Autotile.Fault

/-! Depth of a cell, the key of the painting order: the sum of the horizontal coordinates and a
third of the vertical one, as a binary floating-point number. The third is rounded, the
horizontal sum is rounded, and their sum is rounded again. -/
namespace Autotile.Cell

open Numeral

/-- As many steps upwards come as far forward as one horizontal step. -/
def layersPerStep : Nat := 3

def third (u : Int) : Except Fault Binary64 :=
  let quotient := Binary64.ofRatio u layersPerStep
  if quotient.isFinite then .ok quotient else .error .quotientTooLarge

def ground (n : Int) : Except Fault Binary64 :=
  let rounded := Binary64.ofInt n
  if rounded.isFinite then .ok rounded else .error .integerTooLarge

/-- The sum itself may be infinite. -/
def depth (c : Cell) : Except Fault Binary64 := do
  let third ← third c.u
  let ground ← ground (c.s + c.e)
  return ground.add third

end Autotile.Cell
