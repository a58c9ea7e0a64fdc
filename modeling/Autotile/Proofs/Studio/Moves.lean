import Autotile.Proofs.Board.Moves
import Autotile.Proofs.Studio.Drawing

/-! # What edits do to the board

Where nobody edits the map while an edit runs, an edit that answers made moves of the board and
nothing else: an addition is refused or lets one entity arrive, a removal is refused or lets one
leave, and besides tiles are only composed anew. -/
namespace Autotile

open Edit Relation

def Desk.redrawing (book : Rulebook) : Course where
  done := Board.Redraws book
  failed _ _ := True
  refl _ := .refl
  trans := .trans
  stay _ := trivial
  lead _ _ := trivial

/-- On this course an edit that answers makes moves. -/
def Desk.moving (book : Rulebook) : Course where
  done := Board.Moves book
  failed _ _ := True
  refl _ := .refl
  trans := .trans
  stay _ := trivial
  lead _ _ := trivial

theorem Quiet.follows {hear : Event → Edit Unit} (quiet : Quiet hear) (C : Course) (event : Event) :
    Edit.Follows C (hear event) :=
  follows_of_board_eq fun s => ends_after (P := fun t => t.board = s.board) |>.mpr (quiet event s)

namespace Desk

variable {d : Desk} {s : Studio} {layer : Layer} {cell : Cell} {id : EntityId}

private theorem redrawing_moving {α : Type} {x : Edit α}
    (h : Edit.Follows (redrawing d.book) x) : Edit.Follows (moving d.book) x :=
  ⟨fun s => (h.ends s).mono (fun _ _ redrawn => redrawn.moves) fun _ _ _ => trivial⟩

section Quietly

variable (quiet : Quiet d.hear)
include quiet

private theorem publish_still (event : Event) :
    Ends (d.publish event) s (fun _ t => t.board = s.board) fun _ _ => True :=
  (publish_board quiet event).mono (fun _ _ still => still) fun _ _ _ => trivial

private theorem refuse_still (reason : Refusal) :
    Ends (d.refuse layer cell reason) s (fun _ t => t.board = s.board) fun _ _ => True :=
  refuse_ends fun event _ same => same ▸ publish_still quiet event

private theorem publish_redraws_nothing (event : Event) :
    Edit.Follows (redrawing d.book) (d.publish event) :=
  Edit.Follows.publish (quiet.follows _ event)

theorem refreshAs_redrawing (named : Datum) (id : EntityId) :
    Edit.Follows (redrawing d.book) (d.refreshAs named id) := by
  refine Edit.Follows.consult_bind fun tile s ht => ?_
  obtain ⟨known, onTile⟩ := Board.tile_eq_ok ht
  refine ends_consult_bind.mpr ⟨fun fragments hf => ?_, fun _ _ => trivial⟩
  by_cases same : tile.fragments = fragments
  · rw [if_pos same, ends_pure]
    exact .refl
  · rw [if_neg same]
    have redrawn : Board.Redraw d.book s.board (s.board.setFragments id fragments) :=
      .tile known onTile hf
    refine ends_alter_bind.mpr (Ends.bind ((publish_redraws_nothing quiet _).ends _) ?_)
    intro _ t ht
    exact (ends_pure _).mpr (.head redrawn ht)

theorem cascade_redrawing (cell : Cell) : Edit.Follows (redrawing d.book) (d.cascade cell) :=
  follows_cascade (refreshAs_redrawing quiet) cell

private theorem repaint_ends {b : Board} (h : Board.Redraws d.book b s.board) :
    Ends d.repaint s
      (fun _ t => ∃ order, b.sorted b.indexed = .ok order ∧
        Board.Redraws d.book (b.setOrder order) t.board)
      (fun _ _ => True) := by
  refine ends_consult_bind.mpr ⟨fun order ho => ends_alter_bind.mpr ?_, fun _ _ => trivial⟩
  rw [h.sorted_indexed] at ho
  refine (publish_still quiet _).mono (fun _ t ht => ?_) fun _ _ h => h
  rw [ht]
  exact ⟨order, ho, h.setOrder order⟩

/-- An addition that answers was refused, or the new entity arrived and tiles were redrawn. -/
theorem add_moves (layer : Layer) (cell : Cell) (type : String) :
    Ends (d.add layer cell type) s
      (fun found t => cell.Keyed ∧
        ((s.board.blocks layer cell = true ∧ found = none ∧ t.board = s.board) ∨
        (s.board.blocks layer cell = false ∧ found = some s.board.nextId ∧
          ∃ order, s.board.ArrivalOrder layer cell type order ∧
            Board.Redraws d.book (s.board.arrived layer cell type order) t.board)))
      (fun _ _ => True) := by
  refine ends_consult_bind.mpr ⟨fun _ hk => ?_, fun _ _ => trivial⟩
  have keyed := Cell.checkKey_eq_ok hk
  rw [ends_bind, ends_consult_ok]
  cases hb : s.board.blocks layer cell with
  | true =>
    rw [if_pos rfl]
    refine Ends.bind (refuse_still quiet _) fun _ t ht => ?_
    exact (ends_pure _).mpr ⟨keyed, Or.inl ⟨rfl, rfl, ht⟩⟩
  | false =>
    rw [if_neg Bool.false_ne_true, ends_bind, ends_consult_ok, ends_bind, ends_alter]
    cases layer with
    | tile =>
      refine Ends.bind ((refreshAs_redrawing quiet _ _).ends _) fun _ t redrawn => ?_
      refine Ends.bind (repaint_ends quiet redrawn) fun _ t painted => ?_
      obtain ⟨order, sorted, painted⟩ := painted
      refine Ends.bind ((cascade_redrawing quiet cell).ends t) fun _ u cascaded => ?_
      refine Ends.bind (publish_still quiet _) fun _ v hv => (ends_pure _).mpr ?_
      rw [hv]
      exact ⟨keyed, Or.inr ⟨rfl, rfl, order, sorted, painted.trans cascaded⟩⟩
    | object =>
      refine Ends.bind (repaint_ends quiet .refl) fun _ t painted => ?_
      obtain ⟨order, sorted, painted⟩ := painted
      refine Ends.bind (publish_still quiet _) fun _ v hv => (ends_pure _).mpr ?_
      rw [hv]
      exact ⟨keyed, Or.inr ⟨rfl, rfl, order, sorted, painted⟩⟩

theorem remove_moves (layer : Layer) (cell : Cell) :
    Ends (d.remove layer cell) s
      (fun removed t => cell.Keyed ∧
        ((s.board.find? layer cell = none ∧ removed = false ∧ t.board = s.board) ∨
        ∃ id, s.board.find? layer cell = some id ∧ removed = true ∧
          Board.Redraws d.book (s.board.withdrawn layer cell id) t.board))
      (fun _ _ => True) := by
  refine ends_consult_bind.mpr ⟨fun found hf => ?_, fun _ _ => trivial⟩
  obtain ⟨keyed, hf⟩ := Board.idAt_eq_ok hf
  cases found with
  | none =>
    refine Ends.bind (refuse_still quiet _) fun _ t ht => ?_
    exact (ends_pure _).mpr ⟨keyed, Or.inl ⟨hf, rfl, ht⟩⟩
  | some id =>
    refine ends_alter_bind.mpr (ends_consult_bind.mpr ⟨fun entity _ => ?_, fun _ _ => trivial⟩)
    have still : ∀ event u, Ends (d.publish event) u _ fun _ _ => True := fun event _ =>
      publish_still quiet event
    refine Ends.bind (discard_board still id rfl) fun _ t withdrawn => ?_
    have left : Board.Redraws d.book (s.board.withdrawn layer cell id) t.board :=
      withdrawn ▸ .refl
    cases layer with
    | tile =>
      refine Ends.bind ((cascade_redrawing quiet cell).ends t) fun _ u cascaded => ?_
      refine Ends.bind (publish_still quiet _) fun _ v hv => (ends_pure _).mpr ?_
      rw [hv]
      exact ⟨keyed, Or.inr ⟨id, hf, rfl, left.trans cascaded⟩⟩
    | object =>
      refine Ends.bind (publish_still quiet _) fun _ v hv => (ends_pure _).mpr ?_
      rw [hv]
      exact ⟨keyed, Or.inr ⟨id, hf, rfl, left⟩⟩

theorem clear_moves :
    Ends d.clear s (fun _ t => t.board = s.board.clear) (fun _ _ => True) :=
  ends_alter_bind.mpr (publish_still quiet _)

theorem follows_moving : d.Follows (moving d.book) where
  hear := quiet.follows _
  refreshAs named id := redrawing_moving (refreshAs_redrawing quiet named id)
  cascade cell := redrawing_moving (cascade_redrawing quiet cell)
  add layer cell type named := by
    refine ⟨fun s => (add_moves quiet layer cell type).mono (fun _ t ht => ?_) fun _ _ h => h⟩
    obtain ⟨keyed, ⟨_, _, still⟩ | ⟨free, _, order, sorted, redrawn⟩⟩ := ht
    · exact still ▸ .refl
    · exact .head (.arrive free keyed named sorted) redrawn.moves
  remove layer cell := by
    refine ⟨fun s => (remove_moves quiet layer cell).mono (fun _ t ht => ?_) fun _ _ h => h⟩
    obtain ⟨_, ⟨_, _, still⟩ | ⟨id, found, _, redrawn⟩⟩ := ht
    · exact still ▸ .refl
    · exact .head (.leave found) redrawn.moves
  clear := ⟨fun s => (clear_moves quiet).mono (fun _ _ cleared => cleared ▸ .single .clear)
    fun _ _ h => h⟩

theorem arrival_of_run {given type : Datum} {t : Studio}
    (run : (Command.add layer given type).run d s = .ok (.entity (some id)) t) :
    ∃ cell name order, given.toCell = .ok cell ∧ s.board.blocks layer cell = false ∧
      Board.Redraws d.book (s.board.arrived layer cell name order) t.board := by
  have addition : Ends ((Command.add layer given type).run d) s
      (fun answer t => answer = .entity (some id) →
        ∃ cell name order, given.toCell = .ok cell ∧ s.board.blocks layer cell = false ∧
          Board.Redraws d.book (s.board.arrived layer cell name order) t.board)
      fun _ _ => True := by
    unfold Command.run addGiven
    rw [ends_bind]
    refine ends_consult_bind.mpr ⟨fun cell hc => ?_, fun _ _ => trivial⟩
    refine ends_consult_bind.mpr ⟨fun name _ => ?_, fun _ _ => trivial⟩
    refine (add_moves quiet layer cell name).mono ?_ fun _ _ h => h
    rintro _ u ⟨_, ⟨_, rfl, _⟩ | ⟨free, _, order, _, redrawn⟩⟩ <;> apply (ends_pure _).mpr
    · intro accepted
      cases accepted
    · exact fun _ => ⟨cell, name, order, hc, free, redrawn⟩
  exact addition.of_ok run rfl

theorem departure_of_run {given : Datum} {answer : Answer} {t : Studio}
    (at_cell : given.toCell = .ok cell) (here : s.board.find? layer cell = some id)
    (run : (Command.remove layer given).run d s = .ok answer t) :
    answer = .truth true ∧ Board.Redraws d.book (s.board.withdrawn layer cell id) t.board := by
  have removal : Ends ((Command.remove layer given).run d) s
      (fun answer t => answer = .truth true ∧
        Board.Redraws d.book (s.board.withdrawn layer cell id) t.board) fun _ _ => True := by
    refine Ends.bind ((ends_consult_bind_of_ok at_cell).mpr (remove_moves quiet layer cell)) ?_
    rintro _ t ⟨_, ⟨nothing, _⟩ | ⟨j, found, rfl, redrawn⟩⟩ <;> apply (ends_pure _).mpr
    · rw [here] at nothing
      cases nothing
    · obtain rfl := Option.some.inj (here.symm.trans found)
      exact ⟨rfl, redrawn⟩
  exact removal.of_ok run

end Quietly

end Desk

namespace Board

variable {book : Rulebook} {offsets : List Cell} {b : Board}

theorem Reached.moves (h : Reached book offsets b) : ∃ fixtures, Moves book { fixtures } b := by
  induction h with
  | fresh fixtures => exact ⟨fixtures, .refl⟩
  | @run s _ hear command _ before quiet answered ih =>
    obtain ⟨fixtures, moves⟩ := ih
    have desk : Desk.Follows ⟨book, offsets, hear⟩ (Desk.moving book) := Desk.follows_moving quiet
    exact ⟨fixtures, moves.trans (((desk.run command).ends s).of_ok answered)⟩

theorem Reached.sound (h : Reached book offsets b) : b.Sound := by
  obtain ⟨fixtures, moves⟩ := h.moves
  exact moves.sound (sound_fresh fixtures)

/-- What a board without entities has and every move preserves, every board has that was
reached. -/
theorem Reached.invariant {P : Board → Prop} (h : Reached book offsets b)
    (fresh : ∀ fixtures, P { fixtures })
    (step : ∀ b b', b.Sound → P b → Move book b b' → P b') : P b := by
  obtain ⟨fixtures, moves⟩ := h.moves
  exact moves.invariant (sound_fresh fixtures) (fresh fixtures) step

end Board

end Autotile
