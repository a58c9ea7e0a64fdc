import Autotile.Proofs.Studio.Moves
import Autotile.Proofs.Studio.Settling

/-! # Tiles placed by the brush

A face that can be picked looks up, to the south or to the east, so the cell beyond it is as far to
the front and as high. What the brush puts there is painted after everything at the cell that was
clicked, even where rounding makes both equally deep. -/
namespace Autotile

open Edit Numeral

namespace Sprite

variable {x y : Datum} {side : Direction}

def Visible (side : Direction) : Prop := side = .up ∨ side = .south ∨ side = .east

theorem visible_of_sideAt (h : sideAt x y = .ok side) : Visible side := by
  obtain ⟨x, -, h⟩ := eq_ok_of_bind h
  have above_or (border : Binary64) {other : Direction} (seen : Visible other) (h : (do
      let y ← Number.ofDatum y
      if y.le (.real border) then return .up
      return other) = Except.ok side) : Visible side := by
    obtain ⟨y, -, h⟩ := eq_ok_of_bind h
    by_cases upper : y.le (.real border) = true
    · rw [if_pos upper] at h
      exact Or.inl (Except.ok.inj h).symm
    · rw [if_neg upper] at h
      obtain rfl := Except.ok.inj h
      exact seen
  dsimp only at h
  split at h
  · obtain ⟨border, -, h⟩ := eq_ok_of_bind h
    exact above_or border (Or.inr (Or.inl rfl)) h
  · obtain ⟨border, -, h⟩ := eq_ok_of_bind h
    exact above_or border (Or.inr (Or.inr rfl)) h

theorem visible_of_pickAt (h : pickAt x y = .ok (some side)) : Visible side := by
  obtain ⟨inside, -, h⟩ := eq_ok_of_bind h
  cases inside with
  | false => cases h
  | true =>
    obtain ⟨face, hf, h⟩ := eq_ok_of_bind h
    obtain rfl := Option.some.inj (Except.ok.inj h)
    exact visible_of_sideAt hf

end Sprite

namespace Cell

variable {side : Direction}

theorem move_singleton (c : Cell) (side : Direction) : c.move [side] = c + side.offset := by
  apply Cell.ext <;> simp [move, Path.offset, origin]

theorem move_visible (visible : Sprite.Visible side) (c : Cell) :
    c.s + c.e ≤ (c.move [side]).s + (c.move [side]).e ∧ c.u ≤ (c.move [side]).u := by
  rw [move_singleton, s_add, e_add, u_add]
  rcases visible with rfl | rfl | rfl <;> dsimp only [Direction.offset] <;> omega

theorem ne_move_visible (visible : Sprite.Visible side) (c : Cell) : c ≠ c.move [side] := by
  intro same
  have coordinates := Cell.ext_iff.mp same
  rw [move_singleton, s_add, e_add, u_add] at coordinates
  rcases visible with rfl | rfl | rfl <;> dsimp only [Direction.offset] at coordinates <;> omega

end Cell

namespace Desk

variable {d : Desk} {s : Studio} {cell : Cell} (quiet : Quiet d.hear)
include quiet

theorem add_places (layer : Layer) (cell : Cell) (type : String) :
    Ends (d.add layer cell type) s
      (fun found t => found.isSome = true → ∀ l c id, (c, id) ∈ t.board.index l ↔
        (c, id) ∈ s.board.index l ∨ (l = layer ∧ c = cell ∧ id = s.board.nextId))
      (fun _ _ => True) := by
  refine (add_moves quiet layer cell type).mono ?_ fun _ _ h => h
  rintro _ t ⟨-, ⟨-, rfl, -⟩ | ⟨-, rfl, order, -, redrawn⟩⟩ added l c id
  · cases added
  · rw [redrawn.index]
    exact Board.mem_index_arrived

theorem apply_places {given type : Datum} {side : Direction}
    (brush : s.brush = some ⟨.tile, type⟩) (at_cell : given.toCell = .ok cell) :
    Ends (d.apply given [side]) s
      (fun placed t => placed = true → ∀ l c id, (c, id) ∈ t.board.index l ↔
        (c, id) ∈ s.board.index l ∨ (l = .tile ∧ c = cell.move [side] ∧ id = s.board.nextId))
      (fun _ _ => True) := by
  have taken : Ends Desk.brush s (fun b t => b = ⟨.tile, type⟩ ∧ t = s) fun _ _ => True := by
    unfold Desk.brush
    rw [ends_bind, ends_get, brush]
    exact (ends_pure _).mpr ⟨rfl, rfl⟩
  refine Ends.bind taken ?_
  rintro _ s ⟨rfl, rfl⟩
  refine (ends_consult_bind_of_ok at_cell).mpr ?_
  refine (ends_bind _ _).mpr (ends_consult_bind.mpr ⟨fun c hc => ?_, fun _ _ => trivial⟩)
  obtain rfl := Except.ok.inj hc
  refine ends_consult_bind.mpr ⟨fun name _ => ?_, fun _ _ => trivial⟩
  have added := add_places quiet .tile (cell.move [side]) name (s := s)
  exact added.mono (fun _ _ h => (ends_pure _).mpr h) fun _ _ h => h

end Desk

namespace Board

variable {book : Rulebook} {offsets : List Cell} {hear : Event → Edit Unit} {s t : Studio}
  {given type x y : Datum} {cell : Cell} {side : Direction}

/-- A tile that the brush places on a face that was picked is painted after everything that stands
at the cell of that face. -/
theorem placed_painted_after_clicked (settled : Settled book offsets s.board) (quiet : Quiet hear)
    (brush : s.brush = some ⟨.tile, type⟩) (at_cell : given.toCell = .ok cell)
    (picked : Sprite.pickAt x y = .ok (some side))
    (placed : Desk.apply ⟨book, offsets, hear⟩ given [side] s = .ok true t) :
    t.board.find? .tile (cell.move [side]) = some s.board.nextId ∧
    ∀ layer id, t.board.find? layer cell = some id →
      [id, s.board.nextId].Sublist t.board.paintOrder := by
  have index := (Desk.apply_places quiet brush at_cell).of_ok placed rfl
  have desk : Desk.Follows ⟨book, offsets, hear⟩ settling :=
    Desk.follows_settling fun event => quiet.follows _ event
  have kept := ((desk.apply given [side]).ends s).of_ok placed settled.sound settled.aged
  have sound := kept.advance.sound
  have painted := kept.painted settled.painted
  have visible := Sprite.visible_of_pickAt picked
  have new := (index .tile (cell.move [side]) s.board.nextId).mpr (Or.inr ⟨rfl, rfl, rfl⟩)
  constructor
  · exact sound.find?_eq_some_iff.mpr new
  · intro layer id found
    have here := sound.find?_eq_some_iff.mp found
    have old : (cell, id) ∈ s.board.index layer := by
      rcases (index layer cell id).mp here with old | ⟨-, same, -⟩
      · exact old
      · exact absurd same (Cell.ne_move_visible visible cell)
    -- rounding may make both equally deep, and then the greater number of the new tile decides
    have first := settled.sound.indexed_lt (mem_indexed.mpr ⟨layer, cell, old⟩)
    obtain ⟨front, up⟩ := Cell.move_visible visible cell
    exact kept.aged.first_behind painted sound here new first front up

/-- A rock with a tree on it, so far away that the cell to the south has the same depth. The rock
that is placed on its south face is painted after both. -/
theorem placed_painted_after_clicked_tree :
    let far : Cell := ⟨100000000000000000000, 0, 0⟩
    ∃ s t, Settled .empty [] s.board ∧ s.brush = some ⟨.tile, .text "rock"⟩ ∧
      Sprite.pickAt (.int 5) (.int 15) = .ok (some .south) ∧
      far.depth.toOption = (far.move [.south]).depth.toOption ∧
      Desk.apply ⟨.empty, [], fun _ => pure ()⟩ (.cell far) [.south] s = .ok true t ∧
      t.board.find? .tile (far.move [.south]) = some 4 ∧
      [2, 4].Sublist t.board.paintOrder ∧ [3, 4].Sublist t.board.paintOrder := by
  intro far
  let d : Desk := ⟨.empty, [], fun _ => pure ()⟩
  let put (layer : Layer) (type : String) : Command := .add layer (.cell far) (.text type)
  let start : Studio := { board := { fixtures := 1 } }
  let s₁ := after ((put .tile "rock").run d) start
  let s₂ := after ((put .object "tree").run d) s₁
  have quiet : Quiet d.hear := fun _ _ => rfl
  have r₁ : Reached .empty [] s₁.board :=
    Reached.run_after (s := start) (.fresh 1) quiet _ (by decide +kernel)
  have r₂ : Reached .empty [] s₂.board := r₁.run_after quiet _ (by decide +kernel)
  let painting (b : Board) : Studio := { board := b, brush := some ⟨.tile, .text "rock"⟩ }
  have settled (b : Board) (h : Settled .empty [] b) : Settled .empty [] (painting b).board := h
  let s := painting s₂.board
  let x : Edit Bool := d.apply (.cell far) [.south]
  obtain ⟨answer, run⟩ := run_of_answers (show answers x s = true by decide +kernel)
  have picked : Sprite.pickAt (.int 5) (.int 15) = .ok (some .south) :=
    eq_ok_of_toOption (by decide +kernel)
  have true_answer : answer = true := by
    have changed : (match x s with | .ok b _ => b | .error .. => false) = true := by decide +kernel
    rwa [run] at changed
  subst true_answer
  have rock : (after x s).board.find? .tile far = some 2 := by decide +kernel
  have tree : (after x s).board.find? .object far = some 3 := by decide +kernel
  have at_cell : (Datum.cell far).toCell = .ok far := rfl
  have brush : s.brush = some ⟨.tile, .text "rock"⟩ := rfl
  obtain ⟨new, later⟩ :=
    placed_painted_after_clicked (s := s) (settled _ r₂.settled) quiet brush at_cell picked run
  have level : far.depth.toOption = (far.move [.south]).depth.toOption := by decide +kernel
  have behind := later .tile 2 rock
  have behind' := later .object 3 tree
  have number : s.board.nextId = 4 := by decide +kernel
  rw [number] at new behind behind'
  exact ⟨s, _, settled _ r₂.settled, brush, picked, level, run, new, behind, behind'⟩

end Board

end Autotile
