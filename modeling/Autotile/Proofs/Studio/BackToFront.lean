import Autotile.Proofs.Board.Layering
import Autotile.Proofs.Studio.Painting
import Autotile.Proofs.Studio.Settling

/-! # From back to front

Near the origin rounding keeps exact depths apart, so the entities there are painted in the order
of their exact depths, in whatever order they were inserted. At one cell the tile is painted
before the object. -/
namespace Autotile.Board

open Edit

variable {book : Rulebook} {offsets : List Cell} {b : Board} {cell : Cell} {i j : EntityId}

/-- Of two entities near the origin the one at the lesser exact depth is painted first. So it is
when the other is in another cell, no farther to the north or west and no lower. -/
theorem lesser_depth_painted_first (settled : Settled book offsets b) (hi : i ∈ b.indexed)
    (hj : j ∈ b.indexed) {e f : Entity} (he : b.entity? i = some e) (hf : b.entity? j = some f)
    (near : e.cell.Within (2 ^ 48)) (near' : f.cell.Within (2 ^ 48)) :
    (e.cell.thirds < f.cell.thirds → [i, j].Sublist b.paintOrder) ∧
    (e.cell ≠ f.cell → e.cell.s ≤ f.cell.s → e.cell.e ≤ f.cell.e → e.cell.u ≤ f.cell.u →
      [i, j].Sublist b.paintOrder) := by
  have painted := settled.painted
  have farther (less : e.cell.thirds < f.cell.thirds) : [i, j].Sublist b.paintOrder := by
    obtain ⟨x, hx⟩ := painted.depth_of_mem hi he
    obtain ⟨y, hy⟩ := painted.depth_of_mem hj hf
    exact painted.farther_first hi hj he hf hx hy (near.height_lt near' hx hy less)
  constructor
  · exact farther
  · intro apart south east up
    exact farther (Cell.thirds_lt_of_le apart south east up)

/-- The rock inserted first is a layer above the second, so it is painted after it. -/
theorem lesser_depth_painted_first_rock_above :
    let below : Cell := ⟨281474976710656, -281474976710656, 0⟩
    let above : Cell := ⟨281474976710656, -281474976710656, 1⟩
    ∃ b e f, Settled .empty [] b ∧ 3 ∈ b.indexed ∧ 2 ∈ b.indexed ∧ b.entity? 3 = some e ∧
      b.entity? 2 = some f ∧ e.cell = below ∧ f.cell = above ∧ below.Within (2 ^ 48) ∧
      above.Within (2 ^ 48) ∧ below.thirds < above.thirds ∧ below ≠ above ∧
      [3, 2].Sublist b.paintOrder := by
  intro below above
  let d : Desk := ⟨.empty, [], fun _ => pure ()⟩
  let put (cell : Cell) : Command := .add .tile (.cell cell) (.text "rock")
  let start : Studio := { board := { fixtures := 1 } }
  let s₁ := after ((put above).run d) start
  let s₂ := after ((put below).run d) s₁
  have quiet : Quiet d.hear := fun _ _ => rfl
  have r₁ : Reached .empty [] s₁.board :=
    Reached.run_after (s := start) (.fresh 1) quiet _ (by decide +kernel)
  have r₂ : Reached .empty [] s₂.board := r₁.run_after quiet _ (by decide +kernel)
  have hi : 3 ∈ s₂.board.indexed := by decide +kernel
  have hj : 2 ∈ s₂.board.indexed := by decide +kernel
  let e : Entity := ⟨below, 1, .tile, "rock", []⟩
  let f : Entity := ⟨above, 0, .tile, "rock", []⟩
  have he : s₂.board.entity? 3 = some e := by decide +kernel
  have hf : s₂.board.entity? 2 = some f := by decide +kernel
  have near : below.Within (2 ^ 48) := ⟨by decide, by decide, by decide⟩
  have near' : above.Within (2 ^ 48) := ⟨by decide, by decide, by decide⟩
  have less : below.thirds < above.thirds := by decide
  have apart : below ≠ above := by decide
  obtain ⟨farther, -⟩ := lesser_depth_painted_first r₂.settled hi hj he hf near near'
  exact ⟨_, e, f, r₂.settled, hi, hj, he, hf, rfl, rfl, near, near', less, apart, farther less⟩

/-- However a map was edited, where a tile and an object stand at one cell the object is painted
after the tile. -/
theorem object_painted_after_tile (reached : Reached book offsets b)
    (tile : b.find? .tile cell = some i) (object : b.find? .object cell = some j) :
    [i, j].Sublist b.paintOrder := by
  have layered : b.Layered :=
    reached.invariant layered_fresh fun _ _ sound layered move => layered.move sound move
  have below := mem_of_lookup tile
  have above := mem_of_lookup object
  exact reached.settled.aged.first_behind reached.painted reached.sound below above
    (layered below above) (Int.le_refl _) (Int.le_refl _)

/-- A tree stands where a rock was dug out. A load puts no rock under it, but one in the next cell
and a tree on that, which is painted after its rock. -/
theorem object_painted_after_tile_loaded :
    ∃ b, Reached .empty [] b ∧ b.find? .tile Cell.origin = none ∧
      b.find? .object Cell.origin = some 3 ∧ b.find? .tile ⟨1, 0, 0⟩ = some 4 ∧
      b.find? .object ⟨1, 0, 0⟩ = some 5 ∧ [4, 5].Sublist b.paintOrder := by
  let d : Desk := ⟨.empty, [], fun _ => pure ()⟩
  let put (layer : Layer) (type : String) : Command :=
    .add layer (.cell Cell.origin) (.text type)
  let start : Studio := { board := { fixtures := 1 } }
  let data : Datum := .record
    [("tiles", .record [("0,0,0", .text "rock"), ("1,0,0", .text "rock")]),
      ("objects", .record [("1,0,0", .text "tree")])]
  let s₁ := after ((put .tile "rock").run d) start
  let s₂ := after ((Command.remove .tile (.cell Cell.origin)).run d) s₁
  let s₃ := after ((put .object "tree").run d) s₂
  let s₄ := after ((Command.load data false).run d) s₃
  have quiet : Quiet d.hear := fun _ _ => rfl
  have r₁ : Reached .empty [] s₁.board :=
    Reached.run_after (s := start) (.fresh 1) quiet _ (by decide +kernel)
  have r₂ : Reached .empty [] s₂.board := r₁.run_after quiet _ (by decide +kernel)
  have r₃ : Reached .empty [] s₃.board := r₂.run_after quiet _ (by decide +kernel)
  have r₄ : Reached .empty [] s₄.board := r₃.run_after quiet _ (by decide +kernel)
  have refused : s₄.board.find? .tile Cell.origin = none := by decide +kernel
  have tree : s₄.board.find? .object Cell.origin = some 3 := by decide +kernel
  have tile : s₄.board.find? .tile ⟨1, 0, 0⟩ = some 4 := by decide +kernel
  have object : s₄.board.find? .object ⟨1, 0, 0⟩ = some 5 := by decide +kernel
  exact ⟨_, r₄, refused, tree, tile, object, object_painted_after_tile r₄ tile object⟩

end Autotile.Board
