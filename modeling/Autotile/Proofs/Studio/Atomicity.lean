import Autotile.Proofs.Studio.Failure

/-! # Which failed edits are atomic

An edit whose arguments are refused leaves everything as it was. Once its arguments are accepted an
edit changes the index first and computes with the numbers of the cells afterwards, so where that
fails the change stays. -/
namespace Autotile

open Edit

/-- The same entities are indexed, look the same and are painted in the same order. -/
structure Board.SameMap (b b' : Board) : Prop where
  tiles : b'.tiles = b.tiles
  objects : b'.objects = b.objects
  entities : b'.entities = b.entities
  paintOrder : b'.paintOrder = b.paintOrder

theorem Board.SameMap.index {b b' : Board} (h : b.SameMap b') (layer : Layer) :
    b'.index layer = b.index layer := by
  cases layer with
  | tile => exact h.tiles
  | object => exact h.objects

namespace Command

inductive EditsCell : Command → Prop
  | add (layer : Layer) (cell type : Datum) : EditsCell (.add layer cell type)
  | remove (layer : Layer) (cell : Datum) : EditsCell (.remove layer cell)

/-- The arguments of an edit of one cell can be read, and the cell can be looked up. -/
def Admissible : Command → Prop
  | .add _ cell type => ∃ c name, cell.toCell = .ok c ∧ type.toTypeName = .ok name ∧ c.Keyed
  | .remove _ cell => ∃ c, cell.toCell = .ok c ∧ c.Keyed
  | _ => False

end Command

namespace Desk

variable {d : Desk} {s : Studio} {layer : Layer} {cell : Cell}

theorem add_unkeyed (h : ¬cell.Keyed) (type : String) :
    Ends (d.add layer cell type) s (fun _ _ => False) (fun _ t => t = s) := by
  refine ends_consult_bind.mpr ⟨fun _ hk => ?_, fun _ _ => rfl⟩
  exact h (Cell.checkKey_eq_ok hk) |>.elim

theorem remove_unkeyed (h : ¬cell.Keyed) :
    Ends (d.remove layer cell) s (fun _ _ => False) (fun _ t => t = s) := by
  refine ends_consult_bind.mpr ⟨fun _ hk => ?_, fun _ _ => rfl⟩
  exact h (Board.idAt_eq_ok hk).1 |>.elim

theorem inadmissible_ends {command : Command} (edits : command.EditsCell)
    (h : ¬command.Admissible) :
    Ends (command.run d) s (fun _ _ => False) (fun _ t => t = s) := by
  cases edits with
  | add layer cell type =>
    refine (ends_bind _ _).mpr ?_
    refine ends_consult_bind.mpr ⟨fun c hc => ?_, fun _ _ => rfl⟩
    refine ends_consult_bind.mpr ⟨fun name hn => ?_, fun _ _ => rfl⟩
    exact (add_unkeyed (fun hk => h ⟨c, name, hc, hn, hk⟩) name).mono
      (fun _ _ hf => hf.elim) fun _ _ ht => ht
  | remove layer cell =>
    refine (ends_bind _ _).mpr ?_
    refine ends_consult_bind.mpr ⟨fun c hc => ?_, fun _ _ => rfl⟩
    exact (remove_unkeyed fun hk => h ⟨c, hc, hk⟩).mono (fun _ _ hf => hf.elim) fun _ _ ht => ht

theorem admissible_ends {command : Command} (edits : command.EditsCell)
    (h : command.Admissible) (silent : Silent d.hear) (hs : s.board.Sound) :
    Ends (command.run d) s (fun _ _ => True)
      (fun fault t => fault.IsOversize ∧ ¬s.board.SameMap t.board) := by
  cases edits with
  | add layer cell type =>
    obtain ⟨c, name, hc, hn, keyed⟩ := h
    refine (ends_bind _ _).mpr ?_
    refine (ends_consult_bind_of_ok hc).mpr ((ends_consult_bind_of_ok hn).mpr ?_)
    refine (add_ends silent hs (Datum.toTypeName_eq_ok hn).2).mono
      (fun _ _ _ => (ends_pure _).mpr trivial) fun fault t ht => ?_
    rcases ht with ⟨unkeyed, _⟩ | ⟨_, _, oversize, redrawn⟩
    · exact (unkeyed keyed).elim
    · refine ⟨oversize, fun same => ?_⟩
      have longer := congrArg List.length ((redrawn.index layer).symm.trans (same.index layer))
      rw [Board.index_insert, List.length_append, List.length_singleton] at longer
      omega
  | remove layer cell =>
    obtain ⟨c, hc, keyed⟩ := h
    refine (ends_bind _ _).mpr ?_
    refine (ends_consult_bind_of_ok hc).mpr ?_
    refine (remove_ends silent hs layer c).mono (fun _ _ _ => (ends_pure _).mpr trivial)
      fun fault t ht => ?_
    rcases ht with ⟨unkeyed, _⟩ | ⟨_, _, id, found, oversize, redrawn⟩
    · exact (unkeyed keyed).elim
    · refine ⟨oversize, fun same => ?_⟩
      have here := hs.find?_eq_some_iff.mp found
      rw [← same.index layer, redrawn.index layer] at here
      exact (Board.mem_index_withdrawn.mp here).2 rfl rfl

end Desk

namespace Board

variable {book : Rulebook} {offsets : List Cell}

/-- A failed edit of one cell is atomic exactly where its arguments are not accepted. Where they
are, some number was too large, and what the edit had done by then stays. -/
theorem failed_edit_atomicity {hear : Event → Edit Unit} {s t : Studio} {fault : Fault}
    {command : Command} (edits : command.EditsCell)
    (failed : command.run ⟨book, offsets, hear⟩ s = .error fault t) :
    (¬command.Admissible → t = s) ∧
    (command.Admissible → Silent hear → s.board.Reachable book offsets →
      fault.IsOversize ∧ ¬s.board.SameMap t.board) :=
  ⟨fun h => (Desk.inadmissible_ends edits h).of_error failed,
    fun h silent reachable => (Desk.admissible_ends edits h silent reachable.sound).of_error failed⟩

/-- A tile that stands too high to be placed in the painting order stays when its addition fails. -/
theorem failed_edit_atomicity_tall_tile :
    let put : Command := .add .tile (.cell ⟨0, 0, Int.pow 10 400⟩) (.text "rock")
    let start : Studio := { board := { fixtures := 1 } }
    put.Admissible ∧ ∃ fault t, put.run ⟨.empty, [], fun _ => pure ()⟩ start = .error fault t ∧
      fault.IsOversize ∧ ¬start.board.SameMap t.board := by
  intro put start
  have keyed : (⟨0, 0, Int.pow 10 400⟩ : Cell).Keyed := by decide +kernel
  have admissible : put.Admissible := ⟨_, _, rfl, rfl, keyed⟩
  obtain ⟨fault, failed⟩ := run_of_not_answers (s := start)
    (show answers (put.run ⟨.empty, [], fun _ => pure ()⟩) start = false by decide +kernel)
  exact ⟨admissible, fault, _, failed, (failed_edit_atomicity (.add _ _ _) failed).2 admissible
    silent_nobody ⟨1, .refl _⟩⟩

/-- Not every failed edit of one cell leaves the map as it was. -/
theorem not_every_failed_edit_atomic :
    ¬∀ (book : Rulebook) (offsets : List Cell) (hear : Event → Edit Unit) (s t : Studio)
      (fault : Fault) (command : Command), s.board.Reachable book offsets → Silent hear →
      command.EditsCell → command.run ⟨book, offsets, hear⟩ s = .error fault t →
      s.board.SameMap t.board := by
  intro atomic
  let put : Command := .add .tile (.cell ⟨0, 0, Int.pow 10 400⟩) (.text "rock")
  let start : Studio := { board := { fixtures := 1 } }
  obtain ⟨fault, failed⟩ := run_of_not_answers (s := start)
    (show answers (put.run ⟨.empty, [], fun _ => pure ()⟩) start = false by decide +kernel)
  have same := atomic _ _ _ _ _ _ _ ⟨1, .refl _⟩ silent_nobody (.add _ _ _) failed
  have left : (after (put.run ⟨.empty, [], fun _ => pure ()⟩) start).board.tiles ≠ [] := by
    decide +kernel
  exact left same.tiles

end Board

end Autotile
