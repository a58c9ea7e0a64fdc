import Autotile.Proofs.Cell.Depth
import Autotile.Proofs.Studio.Painting
import Autotile.Proofs.Studio.Settling

/-! # Entities at the same depth

Entities whose cells have the same exact depth are painted in the order of their insertion, unless
rounding takes the cell of the later one for the farther. It does not where both stand at the same
elevation, nor where the elevation comes to whole steps. -/
namespace Autotile.Board

open Edit Numeral

variable {book : Rulebook} {offsets : List Cell} {b : Board} {i j : EntityId}

/-- Of two entities at the same exact depth the one inserted first, which is the one of the lesser
number, is painted first unless the depth of the other is rounded to a lesser one. It is painted
first where both have the same elevation, and where the elevations come to whole steps. -/
theorem depth_ties_by_insertion (settled : Settled book offsets b) (hi : i ∈ b.indexed)
    (hj : j ∈ b.indexed) (first : i < j) {e f : Entity} (he : b.entity? i = some e)
    (hf : b.entity? j = some f) (level : e.cell.thirds = f.cell.thirds) :
    e.sequence < f.sequence ∧
    (∃ x y, e.cell.depth = .ok x ∧ f.cell.depth = .ok y ∧
      ([i, j].Sublist b.paintOrder ↔ y.lt x = false)) ∧
    (e.cell.u = f.cell.u ∨ e.cell.Whole ∧ f.cell.Whole → [i, j].Sublist b.paintOrder) := by
  have ranked := ranked_of_sorted settled.painted
  obtain ⟨x, hx⟩ := ranked i hi
  obtain ⟨y, hy⟩ := ranked j hj
  obtain ⟨e', he', depth, -⟩ := rank_eq_ok hx
  obtain ⟨f', hf', depth', -⟩ := rank_eq_ok hy
  obtain rfl := Option.some.inj (he.symm.trans he')
  obtain rfl := Option.some.inj (hf.symm.trans hf')
  have order : [i, j].Sublist b.paintOrder ↔ y.depth.lt x.depth = false := by
    rw [settled.painted.sublist_iff hi hj (Nat.ne_of_lt first)]
    exact settled.aged.paintKey_lt_iff hi hj first he hf depth depth'
  refine ⟨settled.aged.older hi hj he hf first, ⟨x.depth, y.depth, depth, depth', order⟩,
    fun unrounded => ?_⟩
  have same : e.cell.depth = f.cell.depth := by
    rcases unrounded with height | ⟨whole, whole'⟩
    · exact Cell.depth_of_level height level
    · exact whole.depth_of_level whole' level
  have equal : x.depth = y.depth := Except.ok.inj (depth.symm.trans (same.trans depth'))
  rw [order, equal]
  exact Binary64.lt_irrefl y.depth

/-- A hearer puts a second rock down as soon as the first is there. It stands as deep, three
layers higher and one step behind, and is painted after the first. -/
theorem depth_ties_by_insertion_second_rock :
    ∃ b e f, Settled .empty [] b ∧ 2 ∈ b.indexed ∧ 3 ∈ b.indexed ∧ b.entity? 2 = some e ∧
      b.entity? 3 = some f ∧ e.cell = ⟨1, 0, 0⟩ ∧ f.cell = ⟨0, 0, 3⟩ ∧
      e.cell.thirds = f.cell.thirds ∧ e.cell.Whole ∧ f.cell.Whole ∧
      [2, 3].Sublist b.paintOrder := by
  let put (cell : Cell) : Command := .add .tile (.cell cell) (.text "rock")
  let behind : Edit Answer := (put ⟨0, 0, 3⟩).run ⟨.empty, [], fun _ => pure ()⟩
  let hear : Event → Edit Unit
    | .added .. => attempt behind
    | _ => pure ()
  have heard : ∀ event u, Settles .empty [] u.board (after (hear event) u).board := by
    intro event u
    cases event with
    | added => exact .attempt (fun _ v => .refl v.board) _ u
    | _ => exact .refl u.board
  let start : Studio := { board := { fixtures := 1 } }
  let x : Edit Answer := (put ⟨1, 0, 0⟩).run ⟨.empty, [], hear⟩
  obtain ⟨answer, run⟩ := run_of_answers (show answers x start = true by decide +kernel)
  have settled : Settled .empty [] (after x start).board := ⟨1, .run hear heard (.refl _) run⟩
  have first : 2 ∈ (after x start).board.indexed := by decide +kernel
  have second : 3 ∈ (after x start).board.indexed := by decide +kernel
  let e : Entity := ⟨⟨1, 0, 0⟩, 0, .tile, "rock", []⟩
  let f : Entity := ⟨⟨0, 0, 3⟩, 1, .tile, "rock", []⟩
  have he : (after x start).board.entity? 2 = some e := by decide +kernel
  have hf : (after x start).board.entity? 3 = some f := by decide +kernel
  have whole : e.cell.Whole := ⟨by decide, by decide, by decide⟩
  have whole' : f.cell.Whole := ⟨by decide, by decide, by decide⟩
  obtain ⟨-, -, kept⟩ := depth_ties_by_insertion settled first second (by decide) he hf rfl
  exact ⟨_, e, f, settled, first, second, he, hf, rfl, rfl, rfl, whole, whole',
    kept (Or.inr ⟨whole, whole'⟩)⟩

/-- Two rocks at the exact depth of a third. The depth of the first is rounded up, so it is painted
after the second. -/
theorem not_every_tie_by_insertion :
    ¬∀ (b : Board) (i j : EntityId) (e f : Entity), Settled .empty [] b → i ∈ b.indexed →
      j ∈ b.indexed → i < j → b.entity? i = some e → b.entity? j = some f →
      e.cell.thirds = f.cell.thirds → [i, j].Sublist b.paintOrder := by
  intro h
  let d : Desk := ⟨.empty, [], fun _ => pure ()⟩
  let put (cell : Cell) : Command := .add .tile (.cell cell) (.text "rock")
  let start : Studio := { board := { fixtures := 1 } }
  let s₁ := after ((put ⟨1, 0, -2⟩).run d) start
  let s₂ := after ((put ⟨0, 0, 1⟩).run d) s₁
  have quiet : Quiet d.hear := fun _ _ => rfl
  have r₁ : Reached .empty [] s₁.board :=
    Reached.run_after (s := start) (.fresh 1) quiet _ (by decide +kernel)
  have r₂ : Reached .empty [] s₂.board := r₁.run_after quiet _ (by decide +kernel)
  have order : s₂.board.paintOrder = [3, 2] :=
    r₂.painted.paintOrder_eq (by decide +kernel) (by decide +kernel)
  have kept := h s₂.board 2 3 ⟨⟨1, 0, -2⟩, 0, .tile, "rock", []⟩ ⟨⟨0, 0, 1⟩, 1, .tile, "rock", []⟩
    r₂.settled (by decide +kernel) (by decide +kernel) (by decide) (by decide +kernel)
    (by decide +kernel) rfl
  rw [order] at kept
  exact absurd kept (by decide)

end Autotile.Board
