import Autotile.Proofs.Studio.Undoing

/-! # Replacing a tile

The type of a tile never changes: another tile takes its place. The removal leaves the other types
as they are, and so does the addition, if it is accepted. It is where nothing else stands at the
cell; a tile fits under no object, so under one the place stays empty. -/
namespace Autotile

open Edit

namespace Desk

variable {d : Desk} {s t : Studio} {layer : Layer} {cell : Cell} {given type : Datum}
  {name : String} {answer : Answer}

/-- An addition that is answered was refused, or let a new entity arrive. -/
theorem outcome_of_add (quiet : Quiet d.hear) (at_cell : given.toCell = .ok cell)
    (named : type.toTypeName = .ok name)
    (run : (Command.add layer given type).run d s = .ok answer t) :
    (s.board.blocks layer cell = true ∧ answer = .entity none ∧ t.board = s.board) ∨
      (s.board.blocks layer cell = false ∧ answer = .entity (some s.board.nextId) ∧
        ∃ order, Board.Redraws d.book (s.board.arrived layer cell name order) t.board) := by
  have addition : Ends ((Command.add layer given type).run d) s
      (fun answer t =>
        (s.board.blocks layer cell = true ∧ answer = .entity none ∧ t.board = s.board) ∨
        (s.board.blocks layer cell = false ∧ answer = .entity (some s.board.nextId) ∧
          ∃ order, Board.Redraws d.book (s.board.arrived layer cell name order) t.board))
      fun _ _ => True := by
    refine Ends.bind ((ends_consult_bind_of_ok at_cell).mpr
      ((ends_consult_bind_of_ok named).mpr (add_moves quiet layer cell name))) ?_
    rintro _ u ⟨-, ⟨taken, rfl, still⟩ | ⟨free, rfl, order, -, redrawn⟩⟩ <;> apply (ends_pure _).mpr
    · exact Or.inl ⟨taken, rfl, still⟩
    · exact Or.inr ⟨free, rfl, order, redrawn⟩
  exact addition.of_ok run

end Desk

namespace Board

variable {book : Rulebook} {b b' : Board} {cell : Cell} {type : Option String}

/-- The second board has this tile at the cell, or none, and is else as the first. -/
structure Retyped (b b' : Board) (cell : Cell) (type : Option String) : Prop where
  here : b'.typeAt .tile cell = .ok type
  elsewhere : ∀ layer c, ¬(layer = .tile ∧ c = cell) → b'.typeAt layer c = b.typeAt layer c

namespace Sound

theorem typeAt_eq_ok_iff (h : b.Sound) {layer : Layer} :
    b.typeAt layer cell = .ok type ↔ cell.Keyed ∧ b.type? layer cell = type := by
  rw [h.typeAt_eq, Cell.checkKey]
  by_cases keyed : cell.Keyed <;> simp [keyed, Functor.map, Except.map]

theorem retyped (h : b.Sound) (h' : b'.Sound) (keyed : cell.Keyed)
    (types : ∀ l c, b'.type? l c = if l = .tile ∧ c = cell then type else b.type? l c) :
    b.Retyped b' cell type where
  here := by
    rw [h'.typeAt_eq_ok_iff, types, if_pos ⟨rfl, rfl⟩]
    exact ⟨keyed, rfl⟩
  elsewhere layer c apart := by
    rw [h.typeAt_eq, h'.typeAt_eq, types, if_neg apart]

end Sound

theorem Drawn.composeAt_eq (h : b.Drawn book) {c : Cell} {id : EntityId} {tile : Entity}
    (hi : (c, id) ∈ b.tiles) (known : b.entity? id = some tile) :
    book.composeAt (b.typeAt .tile) tile.type c = .ok tile.fragments := by
  obtain ⟨e, known', rfl, -⟩ := h.sound.stands .tile c id hi
  obtain rfl := Option.some.inj (known'.symm.trans known)
  exact h.drawn _ id _ hi (fun waits => waits) known

/-- However a map was edited, a tile is removed, and where no object stood with it a tile of another
type takes its place: no other type changes, and every tile looks as composing it anew would make it
look. Under an object the new tile is refused, and the cell has no tile. -/
theorem replacing_changes_one_type {s t u : Studio} {hear hear' : Event → Edit Unit}
    {given given' type : Datum} {old name : String} {removed added : Answer}
    (settled : Settled book book.cascadeOffsets s.board) (quiet : Quiet hear) (quiet' : Quiet hear')
    (at_cell : given.toCell = .ok cell) (at_cell' : given'.toCell = .ok cell)
    (named : type.toTypeName = .ok name) (stood : s.board.typeAt .tile cell = .ok (some old))
    (removal : (Command.remove .tile given).run ⟨book, book.cascadeOffsets, hear⟩ s =
      .ok removed t)
    (addition : (Command.add .tile given' type).run ⟨book, book.cascadeOffsets, hear'⟩ t =
      .ok added u) :
    removed = .truth true ∧
    (s.board.typeAt .object cell = .ok none →
      added = .entity (some t.board.nextId) ∧ s.board.Retyped u.board cell (some name)) ∧
    (∀ object, s.board.typeAt .object cell = .ok (some object) →
      added = .entity none ∧ s.board.Retyped u.board cell none) ∧
    ∀ c id tile, (c, id) ∈ u.board.tiles → u.board.entity? id = some tile →
      book.composeAt (u.board.typeAt .tile) tile.type c = .ok tile.fragments := by
  have sound := settled.sound
  have between : Settled book book.cascadeOffsets t.board := settled.run_quiet quiet removal
  have last : Settled book book.cascadeOffsets u.board := between.run_quiet quiet' addition
  obtain ⟨keyed, tile⟩ := sound.typeAt_eq_ok_iff.mp stood
  have stands : (s.board.find? .tile cell).isSome = true := by
    rw [← sound.isSome_type?, tile]
    rfl
  obtain ⟨id, found⟩ := Option.isSome_iff_exists.mp stands
  obtain ⟨truth, departure⟩ := Desk.departure_of_run quiet at_cell found removal
  have left (l : Layer) (c : Cell) : t.board.type? l c =
      if l = .tile ∧ c = cell then none else s.board.type? l c := by
    rw [departure.type?, sound.type?_withdrawn found]
  -- the removal made room for a tile unless an object stands on the one removed
  have blocks : t.board.blocks .tile cell = (s.board.type? .object cell).isSome := by
    simp [between.sound.blocks_eq, left]
  refine ⟨truth, ?_, ?_, ?_⟩
  · intro bare
    obtain ⟨-, bare⟩ := sound.typeAt_eq_ok_iff.mp bare
    rw [bare, Option.isSome_none] at blocks
    rcases Desk.outcome_of_add quiet' at_cell' named addition with
      ⟨taken, -⟩ | ⟨-, accepted, order, arrival⟩
    · rw [blocks] at taken
      cases taken
    refine ⟨accepted, sound.retyped last.sound keyed fun l c => ?_⟩
    have free := find?_eq_none_of_blocks (Bool.not_eq_true _ ▸ blocks)
    rw [arrival.type?, between.sound.type?_arrived free, left]
    split <;> rfl
  · intro object under
    obtain ⟨-, under⟩ := sound.typeAt_eq_ok_iff.mp under
    rw [under, Option.isSome_some] at blocks
    rcases Desk.outcome_of_add quiet' at_cell' named addition with
      ⟨-, refused, still⟩ | ⟨free, -⟩
    · exact ⟨refused, sound.retyped last.sound keyed fun l c => still ▸ left l c⟩
    · rw [blocks] at free
      cases free
  · exact fun c id tile hi known => last.drawn.composeAt_eq hi known

/-- Of two rocks that stand in a row the one to the north gives way to mud, and the other is no
longer drawn as one of a pair. -/
theorem replacing_changes_one_type_mud_to_the_north :
    let book : Rulebook :=
      ⟨[("rock", [("11", [⟨"pair", "rock", "11", [⟨[.north], .sameFamily⟩], none, 3⟩])])]⟩
    let d : Desk := ⟨book, book.cascadeOffsets, fun _ => pure ()⟩
    let beyond := Cell.origin.move [.north]
    ∃ s t u : Studio, Settled book book.cascadeOffsets s.board ∧
      s.board.fragments? Cell.origin = some [⟨"11", "pair", 0, 0, 3⟩] ∧
      (Command.remove .tile (.cell beyond)).run d s = .ok (.truth true) t ∧
      (Command.add .tile (.cell beyond) (.text "mud")).run d t = .ok (.entity (some 4)) u ∧
      s.board.Retyped u.board beyond (some "mud") ∧
      u.board.fragments? Cell.origin = some [] := by
  intro book d beyond
  have offsets : book.cascadeOffsets = standardOffsets :=
    Rulebook.cascadeOffsets_of_near (by decide +kernel)
  let d' : Desk := ⟨book, standardOffsets, fun _ => pure ()⟩
  have desk : d' = d := congrArg (fun around => Desk.mk book around fun _ => pure ()) offsets.symm
  let put (cell : Cell) : Command := .add .tile (.cell cell) (.text "rock")
  let start : Studio := { board := { fixtures := 1 } }
  let s₁ := after ((put Cell.origin).run d') start
  let s₂ := after ((put beyond).run d') s₁
  have quiet : Quiet d'.hear := fun _ _ => rfl
  have r₁ : Reached book standardOffsets s₁.board :=
    Reached.run_after (s := start) (.fresh 1) quiet _ (by decide +kernel)
  have r₂ : Reached book standardOffsets s₂.board := r₁.run_after quiet _ (by decide +kernel)
  -- sorting does not evaluate, so the painting order is the one that ascends
  have order : s₂.board.paintOrder = [3, 2] :=
    r₂.painted.paintOrder_eq (by decide +kernel) (by decide +kernel)
  let s : Studio := { board := s₂.board.setOrder [3, 2] }
  have settled : Settled book book.cascadeOffsets s.board := offsets ▸ (r₂.written order).settled
  have stood : s.board.typeAt .tile beyond = .ok (some "rock") :=
    settled.sound.typeAt_eq_ok_iff.mpr ⟨by decide +kernel, by decide +kernel⟩
  have alone : s.board.typeAt .object beyond = .ok none :=
    settled.sound.typeAt_eq_ok_iff.mpr ⟨by decide +kernel, by decide +kernel⟩
  let remove : Command := .remove .tile (.cell beyond)
  let add : Command := .add .tile (.cell beyond) (.text "mud")
  let t := after (remove.run d') s
  let u := after (add.run d') t
  obtain ⟨removed, removal⟩ : ∃ answer, remove.run d' s = .ok answer t :=
    run_of_answers (by decide +kernel)
  obtain ⟨added, addition⟩ : ∃ answer, add.run d' t = .ok answer u :=
    run_of_answers (by decide +kernel)
  rw [desk] at removal addition
  obtain ⟨rfl, bare, -⟩ :=
    replacing_changes_one_type settled quiet quiet rfl rfl rfl stood removal addition
  obtain ⟨rfl, retyped⟩ := bare alone
  have next : t.board.nextId = 4 := by decide +kernel
  rw [next] at addition
  exact ⟨s, t, u, settled, by decide +kernel, removal, addition, retyped, by decide +kernel⟩

/-- Where a tree stands on a rock, the rock can be removed but no mud can be put there. -/
theorem not_every_tile_is_replaced :
    ¬∀ (book : Rulebook) (hear : Event → Edit Unit) (s t u : Studio) (given type : Datum)
      (cell : Cell) (old name : String) (removed added : Answer),
      Settled book book.cascadeOffsets s.board → Quiet hear → given.toCell = .ok cell →
      type.toTypeName = .ok name → s.board.typeAt .tile cell = .ok (some old) →
      (Command.remove .tile given).run ⟨book, book.cascadeOffsets, hear⟩ s = .ok removed t →
      (Command.add .tile given type).run ⟨book, book.cascadeOffsets, hear⟩ t = .ok added u →
      ∃ id, added = .entity (some id) := by
  intro replaced
  have offsets : Rulebook.empty.cascadeOffsets = standardOffsets := cascadeOffsets_nil
  let hear (_ : Event) : Edit Unit := pure ()
  let d : Desk := ⟨.empty, standardOffsets, hear⟩
  let here : Datum := .cell Cell.origin
  let start : Studio := { board := { fixtures := 1 } }
  let s₁ := after ((Command.add .tile here (.text "rock")).run d) start
  let s₂ := after ((Command.add .object here (.text "tree")).run d) s₁
  have quiet : Quiet hear := fun _ _ => rfl
  have r₁ : Reached .empty standardOffsets s₁.board :=
    Reached.run_after (s := start) (.fresh 1) quiet _ (by decide +kernel)
  have r₂ : Reached .empty standardOffsets s₂.board := r₁.run_after quiet _ (by decide +kernel)
  have order : s₂.board.paintOrder = [2, 3] :=
    r₂.painted.paintOrder_eq (by decide +kernel) (by decide +kernel)
  let s : Studio := { board := s₂.board.setOrder [2, 3] }
  have settled : Settled .empty standardOffsets s.board := (r₂.written order).settled
  have stood : s.board.typeAt .tile Cell.origin = .ok (some "rock") :=
    settled.sound.typeAt_eq_ok_iff.mpr ⟨by decide +kernel, by decide +kernel⟩
  let remove : Command := .remove .tile here
  let add : Command := .add .tile here (.text "mud")
  let t := after (remove.run d) s
  let u := after (add.run d) t
  obtain ⟨removed, removal⟩ : ∃ answer, remove.run d s = .ok answer t :=
    run_of_answers (by decide +kernel)
  obtain ⟨added, addition⟩ : ∃ answer, add.run d t = .ok answer u :=
    run_of_answers (by decide +kernel)
  have every := replaced .empty hear s t u here (.text "mud") Cell.origin "rock" "mud" removed added
  rw [offsets] at every
  obtain ⟨id, accepted⟩ := every settled quiet rfl rfl stood removal addition
  have blocked : t.board.blocks .tile Cell.origin = true := by decide +kernel
  rcases Desk.outcome_of_add quiet rfl rfl addition with ⟨-, refused, -⟩ | ⟨free, -⟩
  · rw [accepted] at refused
    cases refused
  · rw [blocked] at free
    cases free

end Board

end Autotile
