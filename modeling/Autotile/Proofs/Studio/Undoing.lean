import Autotile.Proofs.Board.Layout
import Autotile.Proofs.Studio.Reentrancy
import Autotile.Proofs.Studio.SaveLoad

/-! # Removal undoes insertion

An addition sorts the whole map and composes the tiles around it anew, and so does the removal that
takes it back, but for the sorting. The two cancel: what stands where is as it was before, a drawn
map looks as its types say, and there is one way to sort what is left. -/
namespace Autotile

open Edit

namespace Board

variable {book : Rulebook} {offsets : List Cell} {b b' : Board} {layer l : Layer} {cell : Cell}
  {id : EntityId} {s t : Studio}

theorem Redraw.entity? (h : Redraw book b b') {e : Entity} (known : b.entity? id = some e) :
    ∃ fragments, b'.entity? id = some { e with fragments } ∧
      (e.layer ≠ .tile → fragments = e.fragments) := by
  cases h with
  | @tile j tile fragments found onTile =>
    rw [entity?_setFragments, known, Option.map_some]
    by_cases here : id = j
    · subst here
      obtain rfl := Option.some.inj (known.symm.trans found)
      rw [if_pos rfl]
      exact ⟨fragments, rfl, fun other => absurd onTile other⟩
    · rw [if_neg here]
      exact ⟨e.fragments, rfl, fun _ => rfl⟩

theorem Redraws.entity? (h : Redraws book b b') {e : Entity} (known : b.entity? id = some e) :
    ∃ fragments, b'.entity? id = some { e with fragments } ∧
      (e.layer ≠ .tile → fragments = e.fragments) := by
  induction h with
  | refl => exact ⟨e.fragments, known, fun _ => rfl⟩
  | tail _ last ih =>
    obtain ⟨fragments, known, bare⟩ := ih
    obtain ⟨fragments', known', bare'⟩ := last.entity? known
    exact ⟨fragments', known', fun other => (bare' other).trans (bare other)⟩

theorem entity?_withdrawn {other : EntityId} (apart : other ≠ id) :
    (b.withdrawn layer cell id).entity? other = b.entity? other := by
  unfold withdrawn
  rw [entity?_delete, if_neg apart, entity?_setOrder, entity?_vacate]

theorem index_withdrawn_of_arrived {type : String} {order : List EntityId} {m : Board}
    (sound : b.Sound) (free : b.find? layer cell = none)
    (same : ∀ l, m.index l = (b.arrived layer cell type order).index l) (l : Layer) :
    (m.withdrawn layer cell id).index l = b.index l := by
  unfold withdrawn
  rw [index_delete, index_setOrder]
  by_cases here : l = layer
  · subst here
    have elsewhere : ∀ entry ∈ b.index l, decide (entry.1 ≠ cell) = true := by
      rintro ⟨c, j⟩ hj
      apply decide_eq_true
      rintro rfl
      rw [sound.find?_eq_some_iff.mpr hj] at free
      cases free
    have arrival : m.index l = b.index l ++ [(cell, b.nextId)] := by
      rw [same, arrived, index_setOrder, index_insert]
    rw [index_vacate, arrival, List.filter_append, List.filter_eq_self.mpr elsewhere]
    simp
  · rw [index_vacate_of_ne m here, same, arrived, index_setOrder, index_insert_of_ne b here]

/-- How a board is when an entity that arrived has left again. Meanwhile tiles were redrawn. -/
structure Undone (b b' : Board) : Prop where
  index : ∀ l, b'.index l = b.index l
  types : ∀ l c, b'.type? l c = b.type? l c
  entities : ∀ id ∈ b.indexed, ∀ e, b.entity? id = some e →
    ∃ fragments, b'.entity? id = some { e with fragments } ∧
      (e.layer ≠ .tile → fragments = e.fragments)

/-- Nothing of the arrival is left but what tiles look like. -/
theorem undone {type : String} {order : List EntityId} {m : Board} (sound : b.Sound)
    (sound' : m.Sound) (free : b.find? layer cell = none)
    (arrival : Redraws book (b.arrived layer cell type order) m)
    (found : m.find? layer cell = some b.nextId)
    (departure : Redraws book (m.withdrawn layer cell b.nextId) b') : b.Undone b' := by
  constructor
  case index =>
    intro l
    rw [departure.index]
    exact index_withdrawn_of_arrived sound free arrival.index l
  case types =>
    intro l c
    rw [departure.type?, sound'.type?_withdrawn found]
    by_cases same : l = layer ∧ c = cell
    · obtain ⟨rfl, rfl⟩ := same
      rw [if_pos ⟨rfl, rfl⟩, type?_eq_none free]
    · rw [if_neg same, arrival.type?, sound.type?_arrived free, if_neg same]
  case entities =>
    intro j hj e known
    have apart : j ≠ b.nextId := Nat.ne_of_lt (sound.indexed_lt hj)
    have arrived : (b.arrived layer cell type order).entity? j = some e :=
      (sound.entity?_insert_of_mem hj type).trans known
    obtain ⟨fragments, known', bare⟩ := arrival.entity? arrived
    have left : (m.withdrawn layer cell b.nextId).entity? j = some { e with fragments } :=
      (entity?_withdrawn apart).trans known'
    obtain ⟨fragments', known'', bare'⟩ := departure.entity? left
    exact ⟨fragments', known'', fun other => (bare' other).trans (bare other)⟩

/-- The board as it was: what stands where, which entity it is, how it looks and when it is painted.
Only numbers that were given are not given again. -/
structure Restored (b b' : Board) : Prop where
  index : ∀ layer, b'.index layer = b.index layer
  entities : ∀ id ∈ b.indexed, b'.entity? id = b.entity? id
  types : ∀ layer cell, b'.typeAt layer cell = b.typeAt layer cell
  fragments : ∀ cell, b'.fragmentsAt cell = b.fragmentsAt cell
  saved : b'.save = b.save
  paintOrder : b'.paintOrder = b.paintOrder

namespace Undone

variable (h : b.Undone b')
include h

theorem indexed : b'.indexed = b.indexed := by
  unfold Board.indexed
  rw [show b'.tiles = b.tiles from h.index .tile, show b'.objects = b.objects from h.index .object]

theorem entity?_eq (drawn : b.Drawn book) (drawn' : b'.Drawn book) (hi : id ∈ b.indexed) :
    b'.entity? id = b.entity? id := by
  obtain ⟨layer, cell, hi⟩ := mem_indexed.mp hi
  obtain ⟨e, known, _, onLayer, _⟩ := drawn.sound.stands layer cell id hi
  obtain ⟨fragments, known', bare⟩ := h.entities id (mem_indexed.mpr ⟨layer, cell, hi⟩) e known
  have looks : fragments = e.fragments := by
    by_cases onTile : e.layer = .tile
    · rw [← onLayer, onTile] at hi
      have composed := drawn.drawn cell id e hi (fun waits => waits) known
      have composed' := drawn'.drawn cell id _ (h.index .tile ▸ hi) (fun waits => waits) known'
      have same : b'.composed book { e with fragments } = b.composed book e :=
        drawn'.sound.composed_congr drawn.sound fun o _ => h.types .tile _
      exact Except.ok.inj (composed'.symm.trans (same.trans composed))
    · exact bare onTile
  rw [known', known, looks]

theorem restored (drawn : b.Drawn book) (drawn' : b'.Drawn book) (painted : b.Painted)
    (painted' : b'.Painted) : b.Restored b' := by
  have entities : ∀ id ∈ b.indexed, b'.entity? id = b.entity? id := fun id hi =>
    h.entity?_eq drawn drawn' hi
  constructor
  case index => exact h.index
  case entities => exact entities
  case types =>
    intro layer cell
    rw [drawn'.sound.typeAt_eq, drawn.sound.typeAt_eq, h.types]
  case fragments =>
    intro cell
    rw [drawn'.sound.fragmentsAt_eq, drawn.sound.fragmentsAt_eq,
      drawn.fragments?_congr drawn' (h.types .tile)]
  case saved =>
    rw [drawn'.sound.save_eq, drawn.sound.save_eq]
    simp only [layout_congr (h.index _) (h.types _)]
  case paintOrder =>
    have ranks : ∀ id ∈ b.indexed, b'.rank id = b.rank id := by
      intro id hi
      obtain ⟨layer, cell, here⟩ := mem_indexed.mp hi
      obtain ⟨e, known, _⟩ := drawn.sound.stands layer cell id here
      unfold rank
      rw [entity_of_entity? known, entity_of_entity? ((entities id hi).trans known)]
    have sorted := sorted_congr painted ranks
    rw [← h.indexed] at sorted
    exact Except.ok.inj (painted'.symm.trans sorted)

end Undone

theorem setOrder_of_eq {order : List EntityId} (known : b.paintOrder = order) :
    b.setOrder order = b := by
  subst known
  rfl

theorem Settled.run_quiet (settled : Settled book offsets s.board) {hear : Event → Edit Unit}
    (quiet : Quiet hear) {command : Command} {answer : Answer}
    (run : command.run ⟨book, offsets, hear⟩ s = .ok answer t) :
    Settled book offsets t.board := by
  obtain ⟨fixtures, settles⟩ := settled
  exact ⟨fixtures, .run hear (fun event u => quiet event u ▸ .refl _) settles run⟩

/-- However a map was edited, if an addition is accepted and what it added is removed again while
nobody edits the map, then the map is the one that it was. -/
theorem removal_undoes_insertion {s t t' u : Studio} {hear hear' : Event → Edit Unit}
    {layer : Layer} {given given' type : Datum} {id : EntityId} {answer : Answer}
    (settled : Settled book book.cascadeOffsets s.board) (quiet : Quiet hear) (quiet' : Quiet hear')
    (same : given'.toCell = given.toCell)
    (added : (Command.add layer given type).run ⟨book, book.cascadeOffsets, hear⟩ s =
      .ok (.entity (some id)) t)
    (between : t'.board = t.board)
    (removed : (Command.remove layer given').run ⟨book, book.cascadeOffsets, hear'⟩ t' =
      .ok answer u) :
    answer = .truth true ∧ s.board.Restored u.board := by
  obtain ⟨cell, name, order, at_cell, free, arrival⟩ := Desk.arrival_of_run quiet added
  have later : Settled book book.cascadeOffsets t'.board := between ▸ settled.run_quiet quiet added
  have last : Settled book book.cascadeOffsets u.board := later.run_quiet quiet' removed
  have unoccupied := find?_eq_none_of_blocks (Bool.not_eq_true _ ▸ free)
  rw [← between] at arrival
  have here : t'.board.find? layer cell = some s.board.nextId := by
    apply later.sound.find?_eq_some_iff.mpr
    rw [arrival.index]
    exact mem_index_arrived.mpr (Or.inr ⟨rfl, rfl, rfl⟩)
  obtain ⟨truth, departure⟩ := Desk.departure_of_run quiet' (same.trans at_cell) here removed
  have undone := undone settled.sound later.sound unoccupied arrival here departure
  exact ⟨truth, undone.restored settled.drawn last.drawn settled.painted last.painted⟩

/-- A rock is put to the north of another, which loses its ridge, and taken away again. -/
theorem removal_undoes_insertion_rock_to_the_north :
    let book : Rulebook :=
      ⟨[("rock", [("11", [⟨"ridge", "rock", "11", [⟨[.north], .empty⟩], none, 2⟩])])]⟩
    let d : Desk := ⟨book, book.cascadeOffsets, fun _ => pure ()⟩
    let beyond : Datum := .cell (Cell.origin.move [.north])
    ∃ s t t' u : Studio, Settled book book.cascadeOffsets s.board ∧
      s.board.fragments? Cell.origin = some [⟨"11", "ridge", 0, 0, 2⟩] ∧
      (Command.add .tile beyond (.text "rock")).run d s = .ok (.entity (some 3)) t ∧
      t.board.fragments? Cell.origin = some [] ∧ t.board.paintOrder = [3, 2] ∧
      t'.board = t.board ∧ (Command.remove .tile beyond).run d t' = .ok (.truth true) u ∧
      s.board.Restored u.board := by
  intro book d beyond
  let around : List Cell := [⟨0, 0, -2⟩, ⟨0, 0, -1⟩, ⟨0, 1, -1⟩, ⟨1, 0, -1⟩, ⟨-1, 0, 0⟩, ⟨0, -1, 0⟩,
    ⟨0, 1, 0⟩, ⟨1, 0, 0⟩, ⟨-1, 0, 1⟩, ⟨0, -1, 1⟩, ⟨0, 0, 1⟩, ⟨0, 0, 2⟩]
  have offsets : book.cascadeOffsets = around :=
    sortedOffsets_eq (by decide +kernel) (by decide +kernel)
  let d' : Desk := ⟨book, around, fun _ => pure ()⟩
  have desk : d = d' := congrArg (fun around => Desk.mk book around fun _ => pure ()) offsets
  let put (given : Datum) : Command := .add .tile given (.text "rock")
  let start : Studio := { board := { fixtures := 1 } }
  let s := after ((put (.cell Cell.origin)).run d') start
  let t := after ((put beyond).run d') s
  have quiet : Quiet d'.hear := fun _ _ => rfl
  have r₁ : Reached book around s.board :=
    Reached.run_after (s := start) (.fresh 1) quiet _ (by decide +kernel)
  have r₂ : Reached book around t.board := r₁.run_after quiet _ (by decide +kernel)
  have settled : Settled book book.cascadeOffsets s.board := offsets ▸ r₁.settled
  -- sorting does not evaluate, so the painting order is the one that ascends
  have order : t.board.paintOrder = [3, 2] :=
    r₂.painted.paintOrder_eq (by decide +kernel) (by decide +kernel)
  let t' : Studio := { board := t.board.setOrder [3, 2] }
  have between : t'.board = t.board := setOrder_of_eq order
  have added : (put beyond).run d' s = .ok (.entity (some 3)) t := by
    have accepted : (match (put beyond).run d' s with
      | .ok (.entity found) _ => found
      | _ => none) = some 3 := by decide +kernel
    unfold t after
    split at accepted
    · next found u run =>
      rw [run, accepted]
    · cases accepted
  obtain ⟨answer, removed⟩ := run_of_answers (s := t')
    (show answers ((Command.remove .tile beyond).run d') t' = true by decide +kernel)
  rw [← desk] at added removed
  obtain ⟨rfl, restored⟩ :=
    removal_undoes_insertion settled quiet quiet rfl added between removed
  exact ⟨s, t, t', _, settled, by decide +kernel, added, by decide +kernel, order, between,
    removed, restored⟩

end Board

end Autotile
