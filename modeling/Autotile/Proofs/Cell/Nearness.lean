import Autotile.Board.Reading
import Autotile.Cell.Direction
import Autotile.Proofs.Cell.Rounding

/-! # Near the origin no number is too large

A cell near the origin can be placed in the painting order. It has a key, and so has every cell
that is reached from it by a path which is itself shorter than the longest number. -/
namespace Autotile

open Numeral

namespace Cell.Within

variable {m n : Nat} {c o : Cell}

theorem mono (h : c.Within m) (le : m ≤ n) : c.Within n :=
  ⟨Nat.le_trans h.s le, Nat.le_trans h.e le, Nat.le_trans h.u le⟩

theorem add (h : c.Within m) (h' : o.Within n) : (c + o).Within (m + n) where
  s := Nat.le_trans (Int.natAbs_add_le c.s o.s) (Nat.add_le_add h.s h'.s)
  e := Nat.le_trans (Int.natAbs_add_le c.e o.e) (Nat.add_le_add h.e h'.e)
  u := Nat.le_trans (Int.natAbs_add_le c.u o.u) (Nat.add_le_add h.u h'.u)

theorem neg (h : c.Within n) : (-c).Within n where
  s := by simpa using h.s
  e := by simpa using h.e
  u := by simpa using h.u

theorem keyed (h : c.Within n) (short : n < writeBound) : c.Keyed :=
  ⟨Nat.lt_of_le_of_lt h.s short, Nat.lt_of_le_of_lt h.e short, Nat.lt_of_le_of_lt h.u short⟩

theorem exists_depth (h : c.Within (2 ^ 49)) : ∃ depth, c.depth = .ok depth := by
  have s := h.s
  have e := h.e
  have u := h.u
  have sum : (c.s + c.e).natAbs ≤ 2 ^ 52 := by omega
  have height : c.u.natAbs ≤ 2 ^ 52 := by omega
  unfold depth third ground
  rw [if_pos (Binary64.ofRatio_isFinite height (by decide)), if_pos (Binary64.ofInt_isFinite sum)]
  exact ⟨_, rfl⟩

end Cell.Within

theorem Direction.offset_within (d : Direction) : d.offset.Within 1 := by
  constructor <;> cases d <;> decide

theorem Cell.origin_within (n : Nat) : Cell.origin.Within n :=
  ⟨Nat.zero_le n, Nat.zero_le n, Nat.zero_le n⟩

namespace Path

theorem foldl_within (p : Path) {n : Nat} {c : Cell} (h : c.Within n) :
    (p.foldl (fun c d => c + d.offset) c).Within (n + p.length) := by
  induction p generalizing n c with
  | nil => exact h
  | cons d p ih =>
    have rest := ih (h.add d.offset_within)
    rwa [Nat.add_assoc, Nat.add_comm 1] at rest

theorem offset_within (p : Path) : p.offset.Within p.length := by
  have led := foldl_within p (Cell.origin_within 0)
  rwa [Nat.zero_add] at led

end Path

end Autotile
