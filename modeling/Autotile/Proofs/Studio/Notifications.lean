import Mathlib.Data.List.Nodup
import Autotile.Proofs.Studio.Publications
import Autotile.Proofs.Studio.Representation

/-! # Which tiles an edit tells of

An edit of one cell tells of each tile whose fragments it changed, once and with the fragments that
the tile has in the end. No cell is led to twice by the standard offsets, and none of them leads
back to the edited cell. -/
namespace Autotile

open Edit

theorem Cell.add_left_cancel {c o o' : Cell} (h : c + o = c + o') : o = o' := by
  have hs := congrArg Cell.s h
  have he := congrArg Cell.e h
  have hu := congrArg Cell.u h
  simp only [s_add, e_add, u_add] at hs he hu
  ext <;> omega

theorem sortedOffsets_once (cells : List Cell) : (sortedOffsets cells).Nodup := by
  have once : ∀ seen : List Cell, seen.Nodup →
      (cells.foldl (fun seen c => seen.insert c) seen).Nodup := by
    induction cells with
    | nil => exact fun _ h => h
    | cons c cells ih => exact fun seen h => ih _ (List.Nodup.insert h)
  exact (List.mergeSort_perm _ _).nodup_iff.mpr ((once [] List.nodup_nil).filter _)

theorem Rulebook.cells_around_once (book : Rulebook) (cell : Cell) :
    (cell :: book.cascadeOffsets.map (cell + ·)).Nodup := by
  apply List.nodup_cons.mpr
  constructor
  · intro back
    obtain ⟨o, ho, same⟩ := List.mem_map.mp back
    have here : o = Cell.origin := Cell.add_left_cancel (same.trans (Cell.add_origin cell).symm)
    exact (mem_sortedOffsets.mp ho).2 here
  · exact List.Nodup.map (fun _ _ => Cell.add_left_cancel) (sortedOffsets_once _)

namespace Board

variable {book : Rulebook} {b b' b₀ : Board} {layer : Layer} {cell : Cell} {id : EntityId}

def look (b : Board) (id : EntityId) : List Fragment :=
  ((b.entity? id).map (·.fragments)).getD []

theorem look_of_entity? {e : Entity} (known : b.entity? id = some e) : b.look id = e.fragments := by
  rw [look, known]
  rfl

/-- From one board to another a tile came to other fragments, and it is told of by its number. -/
structure Changes (b b' : Board) (r : Recomposition) : Prop where
  stands : (r.cell, r.id) ∈ b'.tiles
  shown : b'.look r.id = r.fragments
  changed : b.look r.id ≠ r.fragments
  named : r.named = .int r.id

theorem Tidy.stands (h : b.Tidy) (sound : b.Sound) {e : Entity} (known : b.entity? id = some e) :
    (e.cell, id) ∈ b.index e.layer := by
  obtain ⟨layer, cell, hi⟩ := mem_indexed.mp (h.indexed (id, e) (mem_of_lookup known))
  obtain ⟨e', known', rfl, rfl, _⟩ := sound.stands layer cell id hi
  obtain rfl := Option.some.inj (known.symm.trans known')
  exact hi

/-- Where every tile looks at first as it did before, those that are told of are those that look
otherwise in the end. -/
theorem Recomposed.mem_iff_changes {rs : List Recomposition} (h : Recomposed book b rs b')
    (sound : b'.Sound) (tidy : b'.Tidy) (once : (rs.map (·.cell)).Nodup)
    (plain : ∀ r ∈ rs, r.Plain)
    (same : ∀ id e, b.entity? id = some e → b₀.look id = e.fragments) (r : Recomposition) :
    r ∈ rs ↔ b₀.Changes b' r := by
  have ids := h.ids_once once
  constructor
  · intro hr
    obtain ⟨e, known, changed, final⟩ := h.entity?_of_mem ids hr
    obtain ⟨e', known', cell, onTile⟩ := h.cell_of_mem hr
    obtain rfl := Option.some.inj (known.symm.trans known')
    have stands := tidy.stands sound final
    simp only [cell, onTile] at stands
    exact ⟨stands, look_of_entity? final, same _ _ known ▸ changed, plain r hr⟩
  · rintro ⟨stands, shown, changed, named⟩
    obtain ⟨e, known, cell, _⟩ := sound.stands .tile r.cell r.id stands
    -- an entity that was not told of looks as it did before, and this one does not
    have told : r.id ∈ rs.map (·.id) := by
      by_contra untold
      have still := (h.entity?_of_notMem untold).symm.trans known
      rw [look_of_entity? known, ← same _ _ still] at shown
      exact changed shown
    obtain ⟨r', hr', number⟩ := List.mem_map.mp told
    obtain ⟨_, first, _, final⟩ := h.entity?_of_mem ids hr'
    obtain ⟨_, first', cell', _⟩ := h.cell_of_mem hr'
    obtain rfl := Option.some.inj (first.symm.trans first')
    rw [number, known] at final
    obtain rfl := Option.some.inj final
    rw [look_of_entity? known] at shown
    -- each is told of once, so the last that was told is how it looks now
    have itself : r' = r := by
      have name := plain r' hr'
      rw [Recomposition.Plain, number, ← named] at name
      cases r
      cases r'
      simp only [Recomposition.mk.injEq]
      exact ⟨number, cell'.symm.trans cell, shown, name⟩
    exact itself ▸ hr'

theorem Sound.look_arrived (h : b.Sound) {type : String} {order : List EntityId} {e : Entity}
    (known : (b.arrived layer cell type order).entity? id = some e) : b.look id = e.fragments := by
  rw [Board.arrived, entity?_setOrder, entity?_insert h.next_unused] at known
  by_cases new : id = b.nextId
  · rw [if_pos new] at known
    obtain rfl := Option.some.inj known
    rw [look, new, h.next_unused]
    rfl
  · rw [if_neg new] at known
    exact look_of_entity? known

theorem look_withdrawn {gone : EntityId} {e : Entity}
    (known : (b.withdrawn layer cell gone).entity? id = some e) : b.look id = e.fragments := by
  rw [Board.withdrawn, entity?_delete, entity?_setOrder, entity?_vacate] at known
  by_cases left : id = gone
  · rw [if_pos left] at known
    cases known
  · rw [if_neg left] at known
    exact look_of_entity? known

end Board

/-- News of fragments. What is relayed under that name from outside is not the map's. -/
def Event.tellsFragments : Event → Bool
  | .recomposed .. => true
  | _ => false

theorem Recomposition.filter_tellsFragments (rs : List Recomposition) :
    (rs.map Recomposition.event).filter Event.tellsFragments = rs.map Recomposition.event := by
  apply List.filter_eq_self.mpr
  intro event hr
  obtain ⟨r, _, rfl⟩ := List.mem_map.mp hr
  rfl

namespace Command

def OnObjects : Command → Prop
  | .add .object _ _ | .remove .object _ => True
  | _ => False

end Command

def Answer.Refuses (answer : Answer) : Prop := answer = .entity none ∨ answer = .truth false

/-- How an edit tells of the tiles that it changed: each of them once, and of no other. -/
structure Exact (s t : Studio) (rs : List Recomposition) : Prop where
  published : Published Event.tellsFragments s t (rs.map Recomposition.event)
  once : (rs.map (·.id)).Nodup
  changes : ∀ r, r ∈ rs ↔ s.board.Changes t.board r

theorem Exact.nothing {s t : Studio} (still : t.board = s.board)
    (published : Published Event.tellsFragments s t []) : Exact s t [] where
  published := published
  once := List.nodup_nil
  changes r := by
    constructor
    · intro no
      cases no
    · rintro ⟨_, shown, changed, _⟩
      rw [still] at shown
      exact absurd shown changed

section Told

variable {d : Desk} {s t : Studio} {layer : Layer} {cell : Cell}

theorem Arrival.exact {type : String} {order : List EntityId} {own around : List Recomposition}
    (h : Arrival Event.tellsFragments d layer cell type s t order own around)
    (offsets : d.offsets = d.book.cascadeOffsets) (before : s.board.Sound) (sound : t.board.Sound)
    (tidy : t.board.Tidy) : Exact s t (own ++ around) := by
  have cells : ((own ++ around).map (·.cell)).Nodup := by
    rw [List.map_append]
    exact (d.book.cells_around_once cell).sublist (h.here.append (offsets ▸ h.there))
  constructor
  case published =>
    apply h.published.congr
    have added : [Event.added layer s.board.nextId cell type].filter Event.tellsFragments = [] :=
      rfl
    have ordered : [Event.reordered order].filter Event.tellsFragments = [] := rfl
    simp only [List.filter_append, List.map_append, added, ordered, List.append_nil]
  case once => exact h.recomposed.ids_once cells
  case changes =>
    exact h.recomposed.mem_iff_changes sound tidy cells h.plain fun _ _ => before.look_arrived

theorem Departure.exact {id : EntityId} {e : Entity} {around : List Recomposition}
    (h : Departure Event.tellsFragments d layer cell s t id e around)
    (offsets : d.offsets = d.book.cascadeOffsets) (sound : t.board.Sound)
    (tidy : t.board.Tidy) : Exact s t around := by
  have cells : (around.map (·.cell)).Nodup :=
    (List.nodup_cons.mp (d.book.cells_around_once cell)).2.sublist (offsets ▸ h.there)
  constructor
  case published =>
    apply h.published.congr
    have removed : [Event.removed layer id cell e.type].filter Event.tellsFragments = [] := rfl
    have struck : (if id ∈ s.board.paintOrder then
        [Event.reordered (s.board.paintOrder.erase id)] else []).filter
          Event.tellsFragments = [] := by
      split <;> rfl
    simp only [List.filter_append, removed, struck, List.append_nil, List.nil_append]
  case once => exact h.recomposed.ids_once cells
  case changes =>
    exact h.recomposed.mem_iff_changes sound tidy cells h.plain fun _ _ => Board.look_withdrawn

end Told

namespace Desk

variable {d : Desk} {s : Studio} (quiet : Quiet d.hear)
  (discreet : Discreet Event.tellsFragments d.hear)
include quiet discreet

theorem run_exact {command : Command} (edits : command.EditsCell) (before : s.board.Sound)
    (offsets : d.offsets = d.book.cascadeOffsets) :
    Ends (command.run d) s
      (fun answer t => t.board.Sound → t.board.Tidy →
        ∃ rs, Exact s t rs ∧ (command.OnObjects ∨ answer.Refuses → rs = []))
      fun _ _ => True := by
  cases edits with
  | add layer given type =>
    refine Ends.bind (ends_consult_bind.mpr ⟨fun cell _ => ?_, fun _ _ => trivial⟩)
      fun found t h => (ends_pure _).mpr h
    refine ends_consult_bind.mpr ⟨fun name named => ?_, fun _ _ => trivial⟩
    refine (add_told quiet discreet before layer cell (Datum.toTypeName_eq_ok named).2).mono ?_
      fun _ _ h => h
    rintro found t (⟨_, rfl, still, published⟩ | ⟨rfl, order, own, around, told⟩) sound tidy
    · exact ⟨[], .nothing still (published.congr rfl), fun _ => rfl⟩
    · refine ⟨own ++ around, told.exact offsets before sound tidy, ?_⟩
      rintro (object | refused | refused)
      · cases layer with
        | tile => cases object
        | object => exact told.bare rfl
      · cases refused
      · cases refused
  | remove layer given =>
    refine Ends.bind (ends_consult_bind.mpr ⟨fun cell _ => ?_, fun _ _ => trivial⟩)
      fun removed t h => (ends_pure _).mpr h
    refine (remove_told quiet discreet before layer cell).mono ?_ fun _ _ h => h
    rintro removed t (⟨_, rfl, still, published⟩ | ⟨rfl, id, e, around, told⟩) sound tidy
    · exact ⟨[], .nothing still (published.congr rfl), fun _ => rfl⟩
    · refine ⟨around, told.exact offsets sound tidy, ?_⟩
      rintro (object | refused | refused)
      · cases layer with
        | tile => cases object
        | object => exact told.bare rfl
      · cases refused
      · cases refused

end Desk

namespace Board

variable {book : Rulebook} {s t : Studio} {hear : Event → Edit Unit} {command : Command}
  {answer : Answer}

/-- Where the standard offsets are used, an edit of one cell that is answered tells of each tile
whose fragments it changed, of none twice and of no other, with the cell and the final fragments of
the tile. An edit of objects tells of none, and neither does one that is refused. -/
theorem fragment_notifications_exact (reached : Reached book book.cascadeOffsets s.board)
    (quiet : Quiet hear) (discreet : Discreet Event.tellsFragments hear)
    (edits : command.EditsCell)
    (answered : command.run ⟨book, book.cascadeOffsets, hear⟩ s = .ok answer t) :
    ∃ told rs, t.events = s.events ++ told ∧
      told.filter Event.tellsFragments = rs.map Recomposition.event ∧
      (rs.map (·.id)).Nodup ∧ (∀ r, r ∈ rs ↔ s.board.Changes t.board r) ∧
      (command.OnObjects ∨ answer.Refuses → rs = []) := by
  have later : Reached book book.cascadeOffsets t.board := .run reached quiet answered
  have all : ∃ rs, Exact s t rs ∧ (command.OnObjects ∨ answer.Refuses → rs = []) :=
    (Desk.run_exact quiet discreet edits reached.sound rfl).of_ok answered later.sound later.tidy
  obtain ⟨rs, ⟨⟨told, events, same⟩, once, changes⟩, none⟩ := all
  exact ⟨told, rs, events, same.trans (Recomposition.filter_tellsFragments rs), once, changes, none⟩

/-- A rock that is put to the north of another is told of with its ridge, and the other without the
ridge that it had. -/
theorem fragment_notifications_exact_ridge_moves :
    let book : Rulebook :=
      ⟨[("rock", [("11", [⟨"ridge", "rock", "11", [⟨[.north], .empty⟩], none, 2⟩])])]⟩
    let put (cell : Cell) : Command := .add .tile (.cell cell) (.text "rock")
    ∃ (s t : Studio) (answer : Answer) (told : List Event) (rs : List Recomposition),
      Reached book book.cascadeOffsets s.board ∧
      (put ⟨-1, 0, 0⟩).run ⟨book, book.cascadeOffsets, fun _ => pure ()⟩ s = .ok answer t ∧
      t.events = s.events ++ told ∧
      told.filter Event.tellsFragments = rs.map Recomposition.event ∧ (rs.map (·.id)).Nodup ∧
      ⟨2, Cell.origin, [], .int 2⟩ ∈ rs ∧
      ⟨3, ⟨-1, 0, 0⟩, [⟨"11", "ridge", 0, 0, 2⟩], .int 3⟩ ∈ rs := by
  intro book put
  let around : List Cell := [⟨0, 0, -2⟩, ⟨0, 0, -1⟩, ⟨0, 1, -1⟩, ⟨1, 0, -1⟩, ⟨-1, 0, 0⟩, ⟨0, -1, 0⟩,
    ⟨0, 1, 0⟩, ⟨1, 0, 0⟩, ⟨-1, 0, 1⟩, ⟨0, -1, 1⟩, ⟨0, 0, 1⟩, ⟨0, 0, 2⟩]
  have offsets : book.cascadeOffsets = around :=
    sortedOffsets_eq (by decide +kernel) (by decide +kernel)
  have exact := @fragment_notifications_exact book
  rw [offsets] at exact ⊢
  let d : Desk := ⟨book, around, fun _ => pure ()⟩
  let s : Studio := after ((put Cell.origin).run d) { board := { fixtures := 1 } }
  have quiet : Quiet d.hear := fun _ _ => rfl
  have reached : Reached book around s.board :=
    Reached.run_after (s := { board := { fixtures := 1 } }) (.fresh 1) quiet _ (by decide +kernel)
  obtain ⟨answer, run⟩ := run_of_answers (s := s)
    (show answers ((put ⟨-1, 0, 0⟩).run d) s = true by decide +kernel)
  obtain ⟨told, rs, events, published, once, changes, _⟩ :=
    exact reached quiet (discreet_nobody _) (.add _ _ _) run
  refine ⟨s, _, answer, told, rs, reached, run, events, published, once, ?_, ?_⟩
  · exact (changes _).mpr ⟨by decide +kernel, by decide +kernel, by decide +kernel, rfl⟩
  · exact (changes _).mpr ⟨by decide +kernel, by decide +kernel, by decide +kernel, rfl⟩

end Board

end Autotile
