import Autotile.Proofs.Studio.Painting
import Autotile.Proofs.Studio.Settling

/-! # Edits in the midst of edits

Those who hear of an edit may edit the map before it goes on: when a new entity is not yet painted,
when one that leaves has lost its cell but is still known, or between two tiles of a cascade. The
map need not be drawn then. But each edit sees to the tiles that it left to be drawn itself, and
leaves alone those that wait for another; so nothing waits when the outermost edit is done. -/
namespace Autotile.Board

open Edit

variable {book : Rulebook} {offsets : List Cell} {b b' : Board} {i j : EntityId}

/-- Whichever tiles wait to be drawn, answered commands leave no others to wait, those that hearers
give among them. -/
theorem Settles.upholds (covers : ∀ o ∈ book.dependencies, o ≠ Cell.origin → o ∈ offsets)
    (h : Settles book offsets b b') : (Desk.upholding book).done b b' := by
  -- a hearer gives commands of its own, so the hypotheses are for the runs that it makes too
  induction h with
  | refl b => exact (Desk.upholding book).refl b
  | @run _ s t hear heard before command answer answered ihear ih =>
    have desk : Desk.Follows ⟨book, offsets, hear⟩ (Desk.upholding book) := by
      apply Desk.follows_upholding _ covers
      exact fun event => ⟨fun u => ends_after.mpr (ihear event u)⟩
    have step := ((desk.run command).ends s).of_ok answered
    exact (Desk.upholding book).trans ih step

theorem Settled.drawn (h : Settled book book.cascadeOffsets b) : b.Drawn book := by
  obtain ⟨fixtures, h⟩ := h
  have covers : ∀ o ∈ book.dependencies, o ≠ Cell.origin → o ∈ book.cascadeOffsets :=
    fun o ho hne => Rulebook.mem_cascadeOffsets_of_mem_dependencies ho hne
  exact (h.upholds covers _ (drawn_fresh book fixtures)).2

theorem Aged.ages_differ (h : b.Aged) (hi : i ∈ b.indexed) (hj : j ∈ b.indexed) (apart : i ≠ j)
    {e f : Entity} (he : b.entity? i = some e) (hf : b.entity? j = some f) :
    e.sequence ≠ f.sequence := by
  rcases Nat.lt_or_gt_of_ne apart with first | last
  · exact Nat.ne_of_lt (h.older hi hj he hf first)
  · exact Nat.ne_of_gt (h.older hj hi hf he last)

structure Consistent (book : Rulebook) (b : Board) : Prop where
  stands : ∀ layer cell id, (cell, id) ∈ b.index layer →
    ∃ e, b.entity? id = some e ∧ e.cell = cell ∧ e.layer = layer
  one_per_cell : ∀ layer, ((b.index layer).map Prod.fst).Nodup
  listed : b.paintOrder.Perm b.indexed
  once : b.paintOrder.Nodup
  ascending : b.paintOrder.Pairwise b.PaintsBefore
  sorted : b.sorted b.indexed = .ok b.paintOrder
  /-- To compose the whole map anew would change no tile. -/
  composed : ∀ cell id tile, (cell, id) ∈ b.index .tile → b.entity? id = some tile →
    book.composeAt (b.typeAt .tile) tile.type cell = .ok tile.fragments

/-- However edits were made in the midst of others, to any depth and of whatever cells, the map is
consistent when the outermost command has been answered. -/
theorem reentrant_edits_consistent (settled : Settled book book.cascadeOffsets b) :
    b.Consistent book := by
  have sound := settled.sound
  have sorted : b.sorted b.indexed = .ok b.paintOrder := settled.painted
  have perm := sorted_perm sorted
  constructor
  case stands =>
    intro layer cell id hi
    obtain ⟨e, he, hc, hl, _⟩ := sound.stands layer cell id hi
    exact ⟨e, he, hc, hl⟩
  case one_per_cell => exact sound.one_per_cell
  case listed => exact perm
  case once => exact perm.nodup_iff.mpr sound.indexed_nodup
  case ascending =>
    apply sorted_ascends sorted sound.indexed_nodup
    exact fun i hi j hj apart e f he hf => settled.aged.ages_differ hi hj apart he hf
  case sorted => exact sorted
  case composed =>
    intro cell id tile hi he
    obtain ⟨e, he', rfl, _⟩ := sound.stands .tile cell id hi
    obtain rfl := Option.some.inj (he'.symm.trans he)
    exact settled.drawn.drawn _ id _ hi (fun waits => waits) he

/-- A rock is drawn with a ridge for as long as nothing stands to its north. One who hears that puts
a rock there, before the first is painted. In the end only the second has a ridge. -/
theorem reentrant_edits_consistent_rock_to_the_north :
    let book : Rulebook :=
      ⟨[("rock", [("11", [⟨"ridge", "rock", "11", [⟨[.north], .empty⟩], none, 2⟩])])]⟩
    ∃ b : Board, Settled book book.cascadeOffsets b ∧
      b.tiles = [(Cell.origin, 2), (Cell.origin.move [.north], 3)] ∧
      (b.entity? 2).map (·.fragments) = some [] ∧
      (b.entity? 3).map (·.fragments) = some [⟨"11", "ridge", 0, 0, 2⟩] ∧
      b.Consistent book := by
  intro book
  let around : List Cell := [⟨0, 0, -2⟩, ⟨0, 0, -1⟩, ⟨0, 1, -1⟩, ⟨1, 0, -1⟩, ⟨-1, 0, 0⟩, ⟨0, -1, 0⟩,
    ⟨0, 1, 0⟩, ⟨1, 0, 0⟩, ⟨-1, 0, 1⟩, ⟨0, -1, 1⟩, ⟨0, 0, 1⟩, ⟨0, 0, 2⟩]
  have offsets : book.cascadeOffsets = around :=
    sortedOffsets_eq (by decide +kernel) (by decide +kernel)
  let put (cell : Cell) : Command := .add .tile (.cell cell) (.text "rock")
  let beyond : Edit Answer := (put (Cell.origin.move [.north])).run ⟨book, around, fun _ => pure ()⟩
  let hear (event : Event) : Edit Unit :=
    if event.name = "tile_fragments_changed" then attempt beyond else pure ()
  have heard : ∀ event u, Settles book around u.board (after (hear event) u).board := by
    intro event u
    by_cases redrawn : event.name = "tile_fragments_changed"
    · simp only [hear, if_pos redrawn]
      exact .attempt (fun _ v => .refl v.board) _ u
    · simp only [hear, if_neg redrawn]
      exact .refl u.board
  let start : Studio := { board := { fixtures := 1 } }
  let x : Edit Answer := (put Cell.origin).run ⟨book, around, hear⟩
  obtain ⟨answer, run⟩ := run_of_answers (show answers x start = true by decide +kernel)
  have settled : Settled book around (after x start).board := ⟨1, .run hear heard (.refl _) run⟩
  rw [← offsets] at settled
  exact ⟨_, settled, by decide +kernel, by decide +kernel, by decide +kernel,
    reentrant_edits_consistent settled⟩

end Autotile.Board
