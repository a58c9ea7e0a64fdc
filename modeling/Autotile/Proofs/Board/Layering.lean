import Autotile.Proofs.Board.Moves

/-! # Objects on tiles

An object may be put on a tile, but no tile under an object. So of a tile and an object at one cell
the tile is the older, and as they are equally deep it is painted first. -/
namespace Autotile.Board

variable {book : Rulebook} {b b' : Board} {layer : Layer} {cell : Cell} {id i j : EntityId}

/-- Of a tile and an object at one cell the tile has the lesser number. -/
def Layered (b : Board) : Prop :=
  ∀ {cell i j}, (cell, i) ∈ b.index .tile → (cell, j) ∈ b.index .object → i < j

theorem layered_fresh (fixtures : Nat) : Layered { fixtures } := by
  intro cell i j tile
  cases tile

namespace Layered

theorem arrived (h : b.Layered) (sound : b.Sound) (free : b.blocks layer cell = false)
    (type : String) (order : List EntityId) : (b.arrived layer cell type order).Layered := by
  intro c i j tile object
  rcases mem_index_arrived.mp tile with tile | ⟨rfl, rfl, rfl⟩
  · rcases mem_index_arrived.mp object with object | ⟨rfl, rfl, rfl⟩
    · exact h tile object
    · exact sound.indexed_lt (mem_indexed.mpr ⟨.tile, c, tile⟩)
  · rcases mem_index_arrived.mp object with object | ⟨other, -, -⟩
    · have covered := sound.find?_eq_some_iff.mpr object
      simp [blocks, covered] at free
    · cases other

theorem move (h : b.Layered) (sound : b.Sound) (move : Move book b b') : b'.Layered := by
  cases move with
  | redraw redrawn =>
    intro cell i j tile object
    rw [redrawn.index] at tile object
    exact h tile object
  | arrive free _ _ _ => exact h.arrived sound free _ _
  | leave =>
    intro cell i j tile object
    exact h (mem_index_withdrawn.mp tile).1 (mem_index_withdrawn.mp object).1
  | clear =>
    intro cell i j tile
    rw [index_clear] at tile
    cases tile

end Layered

end Autotile.Board
