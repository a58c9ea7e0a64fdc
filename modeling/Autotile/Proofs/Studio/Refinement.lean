import Autotile.Proofs.Board.Layout
import Autotile.Proofs.Studio.Atomicity
import Autotile.Proofs.Studio.Moves

/-! # A map is two plans laid over each other

A plan tells what stands at each cell of each layer. Edits of the map are edits of its plan: they
are refused where the plan refuses them and change it at one cell otherwise, and whatever is asked
about the map the plan answers. -/
namespace Autotile

open Edit

/-- The type at each cell of each layer, if something stands there. -/
abbrev Plan := Layer → Cell → Option String

inductive MapEdit where
  | put (layer : Layer) (cell : Cell) (type : String)
  | take (layer : Layer) (cell : Cell)
  | clear
  deriving DecidableEq, Repr

namespace Plan

def empty : Plan := fun _ _ => none

def set (L : Plan) (layer : Layer) (cell : Cell) (type : Option String) : Plan := fun l c =>
  if l = layer ∧ c = cell then type else L l c

/-- An object may be put on a tile, but no tile under an object. -/
def refuses (L : Plan) : MapEdit → Bool
  | .put .tile cell _ => (L .tile cell).isSome || (L .object cell).isSome
  | .put .object cell _ => (L .object cell).isSome
  | .take layer cell => (L layer cell).isNone
  | .clear => false

/-- The plan after an edit. One that is refused changes nothing. -/
def edit (L : Plan) (change : MapEdit) : Plan :=
  if L.refuses change then L
  else match change with
    | .put layer cell type => L.set layer cell (some type)
    | .take layer cell => L.set layer cell none
    | .clear => empty

theorem edit_of_refuses {L : Plan} {change : MapEdit} (h : L.refuses change = true) :
    L.edit change = L := if_pos h

def after (edits : List MapEdit) : Plan := edits.foldl edit empty

theorem after_append (edits : List MapEdit) (change : MapEdit) :
    after (edits ++ [change]) = (after edits).edit change := by
  rw [after, List.foldl_append]
  rfl

end Plan

namespace MapEdit

/-- What is answered to an edit. An addition is answered by the number of the new entity. -/
def Answered (refused : Bool) (answer : Answer) : MapEdit → Prop
  | .put .. => ∃ found, answer = .entity found ∧ (found = none ↔ refused = true)
  | .take .. => answer = .truth !refused
  | .clear => answer = .nothing

def refusal? : MapEdit → Option Event
  | .put layer cell _ => some (.refused layer cell .occupied)
  | .take layer cell => some (.refused layer cell .empty)
  | .clear => none

end MapEdit

namespace Command

inductive Means : Command → MapEdit → Prop
  | put {layer : Layer} {cell type : Datum} {c : Cell} {name : String}
      (at_cell : cell.toCell = .ok c) (named : type.toTypeName = .ok name) :
      Means (.add layer cell type) (.put layer c name)
  | take {layer : Layer} {cell : Datum} {c : Cell} (at_cell : cell.toCell = .ok c) :
      Means (.remove layer cell) (.take layer c)
  | clear : Means .clear .clear

inductive EditsMap : Command → Prop
  | cell {command : Command} (edits : command.EditsCell) : EditsMap command
  | clear : EditsMap .clear

end Command

namespace Board

/-- Boards that edits lead to, where each edit is answered and those who hear of it leave the board
alone. -/
inductive Edited (book : Rulebook) (offsets : List Cell) : List MapEdit → Board → Prop
  | fresh (fixtures : Nat) : Edited book offsets [] { fixtures }
  | run {edits : List MapEdit} {s t : Studio} {hear : Event → Edit Unit} {command : Command}
      {change : MapEdit} {answer : Answer} (before : Edited book offsets edits s.board)
      (quiet : Quiet hear) (means : command.Means change)
      (answered : command.run ⟨book, offsets, hear⟩ s = .ok answer t) :
      Edited book offsets (edits ++ [change]) t.board

structure Shows (b : Board) (L : Plan) : Prop where
  sound : b.Sound
  type? : ∀ layer cell, b.type? layer cell = L layer cell

theorem shows_fresh (fixtures : Nat) : Shows { fixtures } .empty where
  sound := sound_fresh fixtures
  type? layer _ := by cases layer <;> rfl

namespace Shows

variable {b : Board} {L : Plan} (h : b.Shows L)
include h

theorem blocks (layer : Layer) (cell : Cell) (type : String) :
    b.blocks layer cell = L.refuses (.put layer cell type) := by
  rw [h.sound.blocks_eq]
  cases layer <;> simp only [h.type?] <;> rfl

theorem find?_isNone (layer : Layer) (cell : Cell) :
    (b.find? layer cell).isNone = L.refuses (.take layer cell) := by
  have same := h.sound.isSome_type? layer cell
  rw [h.type?] at same
  simp only [Plan.refuses, ← Option.not_isSome, same]

end Shows

end Board

def Mute (hear : Event → Edit Unit) : Prop := ∀ event s, (after (hear event) s).events = s.events

namespace Desk

variable {d : Desk} {s : Studio} {layer : Layer} {cell : Cell}

theorem publish_events (mute : Mute d.hear) (event : Event) (s : Studio) :
    Ends (d.publish event) s (fun _ t => t.events = s.events ++ [event])
      (fun _ t => t.events = s.events ++ [event]) := by
  refine (ends_bind _ _).mpr ((ends_record _).mpr ?_)
  exact ends_after (P := fun t => t.events = s.events ++ [event]) |>.mpr (mute event _)

theorem refuse_run (d : Desk) (s : Studio) (layer : Layer) (cell : Cell) (reason : Refusal) :
    ∃ notice, d.refuse layer cell reason s =
      d.publish (.refused layer cell reason) { s with notices := s.notices ++ [notice] } := by
  cases reason <;> exact ⟨_, rfl⟩

theorem add_refused (blocked : s.board.blocks layer cell = true) (type : String) :
    Ends (d.add layer cell type) s
      (fun found t => found = none ∧ ∃ notice, d.publish (.refused layer cell .occupied)
        { s with notices := s.notices ++ [notice] } = .ok () t)
      (fun _ _ => True) := by
  refine ends_consult_bind.mpr ⟨fun _ _ => ?_, fun _ _ => trivial⟩
  rw [ends_bind, ends_consult_ok, if_pos blocked, ends_bind]
  obtain ⟨notice, run⟩ := d.refuse_run s layer cell .occupied
  exact ⟨fun refused => (ends_pure _).mpr ⟨rfl, notice, run ▸ refused⟩, fun _ => trivial⟩

theorem remove_refused (absent : s.board.find? layer cell = none) :
    Ends (d.remove layer cell) s
      (fun removed t => removed = false ∧ ∃ notice, d.publish (.refused layer cell .empty)
        { s with notices := s.notices ++ [notice] } = .ok () t)
      (fun _ _ => True) := by
  refine ends_consult_bind.mpr ⟨fun found hf => ?_, fun _ _ => trivial⟩
  obtain ⟨_, rfl⟩ := Board.idAt_eq_ok hf
  rw [absent]
  refine (ends_bind _ _).mpr ?_
  obtain ⟨notice, run⟩ := d.refuse_run s layer cell .empty
  exact ⟨fun refused => (ends_pure _).mpr ⟨rfl, notice, run ▸ refused⟩, fun _ => trivial⟩

/-- How a map that shows a plan comes through an edit. A refused edit leaves it as it was, but for
one line in the log, and publishes its refusal and nothing else. -/
structure Carried (d : Desk) (L : Plan) (change : MapEdit) (s : Studio) (answer : Answer)
    (t : Studio) : Prop where
  answered : change.Answered (L.refuses change) answer
  shows : t.board.Shows (L.edit change)
  refused : L.refuses change = true → t.board = s.board ∧ ∃ event notice,
    change.refusal? = some event ∧
    d.publish event { s with notices := s.notices ++ [notice] } = .ok () t

section Quietly

variable {L : Plan} (quiet : Quiet d.hear) (shows : s.board.Shows L)
include quiet shows

private theorem carried_refusal {change : MapEdit} {event : Event} {notice : Notice} {t : Studio}
    {answer : Answer} (refused : L.refuses change = true) (refusal : change.refusal? = some event)
    (published : d.publish event { s with notices := s.notices ++ [notice] } = .ok () t)
    (answered : change.Answered true answer) : d.Carried L change s answer t := by
  have still := (publish_board quiet event).of_ok published
  refine ⟨refused ▸ answered, ?_, fun _ => ⟨still, event, notice, refusal, published⟩⟩
  rw [Plan.edit_of_refuses refused, still]
  exact shows

theorem add_carried (layer : Layer) (cell : Cell) {type : String} (named : type ≠ "") :
    Ends (d.add layer cell type) s
      (fun found t => d.Carried L (.put layer cell type) s (.entity found) t)
      (fun _ _ => True) := by
  have blocks := shows.blocks layer cell type
  cases refused : L.refuses (.put layer cell type) with
  | true =>
    refine (add_refused (blocks.trans refused) type).mono ?_ fun _ _ h => h
    rintro _ t ⟨rfl, notice, published⟩
    exact carried_refusal quiet shows refused rfl published ⟨none, rfl, by simp⟩
  | false =>
    refine (add_moves quiet layer cell type).mono ?_ fun _ _ h => h
    rintro _ t ⟨keyed, ⟨taken, _⟩ | ⟨free, rfl, order, sorted, redrawn⟩⟩
    · rw [blocks, refused] at taken
      cases taken
    · have unoccupied := Board.find?_eq_none_of_blocks (Bool.not_eq_true _ ▸ free)
      refine ⟨⟨_, rfl, by simp [refused]⟩, ⟨?_, fun l c => ?_⟩, fun no => ?_⟩
      · exact redrawn.moves.sound (shows.sound.arrived free keyed named sorted)
      · rw [redrawn.type?, shows.sound.type?_arrived unoccupied, shows.type?, Plan.edit, refused]
        rfl
      · rw [refused] at no
        cases no

theorem remove_carried (layer : Layer) (cell : Cell) :
    Ends (d.remove layer cell) s
      (fun removed t => d.Carried L (.take layer cell) s (.truth removed) t)
      (fun _ _ => True) := by
  have absent := shows.find?_isNone layer cell
  cases refused : L.refuses (.take layer cell) with
  | true =>
    rw [refused, Option.isNone_iff_eq_none] at absent
    refine (remove_refused absent).mono ?_ fun _ _ h => h
    rintro _ t ⟨rfl, notice, published⟩
    exact carried_refusal quiet shows refused rfl published rfl
  | false =>
    refine (remove_moves quiet layer cell).mono ?_ fun _ _ h => h
    rintro _ t ⟨_, ⟨nothing, _⟩ | ⟨id, found, rfl, redrawn⟩⟩
    · rw [nothing, refused] at absent
      cases absent
    · refine ⟨?_, ⟨?_, fun l c => ?_⟩, fun no => ?_⟩
      · rw [refused]
        rfl
      · exact redrawn.moves.sound (shows.sound.withdrawn found)
      · rw [redrawn.type?, shows.sound.type?_withdrawn found, shows.type?, Plan.edit, refused]
        rfl
      · rw [refused] at no
        cases no

theorem clear_carried :
    Ends d.clear s (fun _ t => d.Carried L .clear s .nothing t) (fun _ _ => True) := by
  refine (clear_moves quiet).mono (fun _ t cleared => ⟨rfl, ?_, fun no => ?_⟩) fun _ _ h => h
  · rw [cleared]
    exact ⟨shows.sound.clear, fun layer cell => Board.type?_clear s.board layer cell⟩
  · cases no

/-- Whatever edit a command means, the map comes through it. -/
theorem run_carried {command : Command} {change : MapEdit} (means : command.Means change) :
    Ends (command.run d) s (fun answer t => d.Carried L change s answer t) (fun _ _ => True) := by
  cases means with
  | @put layer cell type c name at_cell named =>
    have added := add_carried quiet shows layer c (Datum.toTypeName_eq_ok named).2
    refine Ends.bind ((ends_consult_bind_of_ok at_cell).mpr
      ((ends_consult_bind_of_ok named).mpr added)) fun found t carried => ?_
    exact (ends_pure _).mpr carried
  | @take layer cell c at_cell =>
    refine Ends.bind ((ends_consult_bind_of_ok at_cell).mpr
      (remove_carried quiet shows layer c)) fun removed t carried => ?_
    exact (ends_pure _).mpr carried
  | clear =>
    exact Ends.bind (clear_carried quiet shows) fun _ t carried => (ends_pure _).mpr carried

end Quietly

end Desk

theorem Command.means_of_run {d : Desk} {s t : Studio} {command : Command} {answer : Answer}
    (edits : command.EditsMap) (answered : command.run d s = .ok answer t) :
    ∃ change, command.Means change := by
  cases edits with
  | clear => exact ⟨_, .clear⟩
  | cell edits =>
    refine Classical.byContradiction fun unread => ?_
    have inadmissible : ¬command.Admissible := by
      intro admissible
      cases edits with
      | add layer cell type =>
        obtain ⟨c, name, at_cell, named, _⟩ := admissible
        exact unread ⟨_, .put at_cell named⟩
      | remove layer cell =>
        obtain ⟨c, at_cell, _⟩ := admissible
        exact unread ⟨_, .take at_cell⟩
    exact (Desk.inadmissible_ends edits inadmissible).of_ok answered

namespace Board

/-- What can be asked about a map a plan answers. A cell whose key cannot be written cannot be asked
about, and nothing stands there. -/
structure AnsweredBy (d : Desk) (s : Studio) (L : Plan) : Prop where
  named : ∀ layer cell type, L layer cell = some type → type ≠ ""
  type_at : ∀ layer given cell, given.toCell = .ok cell → cell.Keyed →
    (Command.typeAt layer given).run d s = .ok (.type (L layer cell)) s
  unkeyed : ∀ layer cell, ¬cell.Keyed → L layer cell = none
  contents : ∀ layer, ∃ entries,
    (Command.contents layer).run d s = .ok (.contents entries) s ∧
    (entries.map Prod.fst).Nodup ∧ (s.board.index layer).length = entries.length ∧
    ∀ cell type, (cell, type) ∈ entries ↔ L layer cell = some type

private theorem run_reading {α : Type} {f : Board → Except Fault α} {a : α} {s : Studio}
    (h : f s.board = .ok a) (answer : α → Answer) :
    (do return answer (← consult f) : Edit Answer) s = .ok (answer a) s := by
  refine run_of_ends ((ends_consult_bind_of_ok h).mpr ?_)
  exact (ends_pure _).mpr ⟨rfl, rfl⟩

theorem Shows.answeredBy {d : Desk} {s : Studio} {L : Plan} (h : s.board.Shows L) :
    AnsweredBy d s L where
  named layer cell type ht := h.sound.type?_ne_empty ((h.type? layer cell).trans ht)
  type_at layer given cell at_cell keyed := by
    refine run_reading ?_ Answer.type
    rw [bind_of_eq_ok at_cell, h.sound.typeAt_eq, Cell.checkKey_of_keyed keyed, ← h.type?]
    rfl
  unkeyed layer cell unkeyed := by
    refine Option.eq_none_iff_forall_ne_some.mpr fun type ht => ?_
    have stands := h.sound.mem_layout.mpr ((h.type? layer cell).trans ht)
    exact unkeyed (h.sound.layout_keyed stands)
  contents layer := by
    refine ⟨_, run_reading (h.sound.contents_eq layer) Answer.contents, h.sound.layout_once layer,
      ?_, fun cell type => ?_⟩
    · rw [layout, List.length_map]
    · rw [h.sound.mem_layout, h.type?]

variable {book : Rulebook} {offsets : List Cell} {edits : List MapEdit}

theorem Edited.shows {b : Board} (h : Edited book offsets edits b) : b.Shows (.after edits) := by
  induction h with
  | fresh fixtures => exact shows_fresh fixtures
  | run before quiet means answered ih =>
    rw [Plan.after_append]
    exact ((Desk.run_carried quiet ih means).of_ok answered).shows

theorem Edited.run_after {s : Studio} {hear : Event → Edit Unit}
    (before : Edited book offsets edits s.board) (quiet : Quiet hear) {command : Command}
    {change : MapEdit} (means : command.Means change)
    (answered : answers (command.run ⟨book, offsets, hear⟩) s = true) :
    Edited book offsets (edits ++ [change])
      (Edit.after (command.run ⟨book, offsets, hear⟩) s).board := by
  obtain ⟨answer, run⟩ := run_of_answers answered
  exact .run before quiet means run

/-- However a map was edited, what is asked about it is answered by the plan of its edits. The next
edit that is answered is refused where the plan refuses it and leaves everything as it was, having
published its refusal and nothing else; otherwise it changes the plan at its cell. -/
theorem map_refines_plan {s : Studio} (edited : Edited book offsets edits s.board)
    {hear : Event → Edit Unit} (quiet : Quiet hear) :
    let d : Desk := ⟨book, offsets, hear⟩
    let L : Plan := .after edits
    AnsweredBy d s L ∧
    ∀ command : Command, command.EditsMap → ∀ answer t, command.run d s = .ok answer t →
      ∃ change, command.Means change ∧
        Edited book offsets (edits ++ [change]) t.board ∧
        change.Answered (L.refuses change) answer ∧
        AnsweredBy d t (L.edit change) ∧
        (L.refuses change = true → t.board = s.board ∧ ∃ event, change.refusal? = some event ∧
          (∃ notice, d.publish event { s with notices := s.notices ++ [notice] } = .ok () t) ∧
          (Mute hear → t.events = s.events ++ [event])) := by
  intro d L
  refine ⟨edited.shows.answeredBy, fun command editsMap answer t run => ?_⟩
  obtain ⟨change, means⟩ := Command.means_of_run editsMap run
  have carried := (Desk.run_carried quiet edited.shows means).of_ok run
  refine ⟨change, means, .run edited quiet means run, carried.answered,
    carried.shows.answeredBy, fun refused => ?_⟩
  obtain ⟨still, event, notice, refusal, published⟩ := carried.refused refused
  refine ⟨still, event, refusal, ⟨notice, published⟩, fun mute => ?_⟩
  have heard := (Desk.publish_events (d := d) mute event _).of_ok published
  exact heard

/-- Where a rock gave way to a tree no mud can be put: the tree stays, and only the refusal is
heard of. -/
theorem map_refines_plan_mud_under_tree :
    let d : Desk := ⟨.empty, [], fun _ => pure ()⟩
    let edits : List MapEdit :=
      [.put .tile Cell.origin "rock", .take .tile Cell.origin, .put .object Cell.origin "tree"]
    let mud : Command := .add .tile (.cell Cell.origin) (.text "mud")
    ∃ s t, Edited .empty [] edits s.board ∧ Plan.after edits .object Cell.origin = some "tree" ∧
      AnsweredBy d s (.after edits) ∧ mud.run d s = .ok (.entity none) t ∧ t.board = s.board ∧
      t.events = s.events ++ [.refused .tile Cell.origin .occupied] := by
  intro d edits mud
  let rock : Command := .add .tile (.cell Cell.origin) (.text "rock")
  let dig : Command := .remove .tile (.cell Cell.origin)
  let tree : Command := .add .object (.cell Cell.origin) (.text "tree")
  let start : Studio := { board := { fixtures := 1 } }
  let s₁ := Edit.after (rock.run d) start
  let s₂ := Edit.after (dig.run d) s₁
  let s₃ := Edit.after (tree.run d) s₂
  have quiet : Quiet d.hear := fun _ _ => rfl
  have e₁ : Edited .empty [] [.put .tile Cell.origin "rock"] s₁.board :=
    (Edited.fresh 1).run_after (s := start) quiet (.put rfl rfl) (by decide +kernel)
  have e₂ : Edited .empty [] [.put .tile Cell.origin "rock", .take .tile Cell.origin] s₂.board :=
    e₁.run_after quiet (.take rfl) (by decide +kernel)
  have e₃ : Edited .empty [] edits s₃.board :=
    e₂.run_after quiet (.put rfl rfl) (by decide +kernel)
  obtain ⟨answer, run⟩ := run_of_answers (s := s₃)
    (show answers (mud.run d) s₃ = true by decide +kernel)
  obtain ⟨shown, next⟩ := map_refines_plan e₃ quiet
  obtain ⟨change, means, _, answered, _, refusal⟩ := next mud (.cell (.add _ _ _)) _ _ run
  have asked : ∀ cell type, (Command.add .tile cell type).Means change → cell = .cell Cell.origin →
      type = .text "mud" → change = .put .tile Cell.origin "mud" := by
    rintro _ _ ⟨at_cell, named⟩ rfl rfl
    obtain rfl := Except.ok.inj at_cell
    obtain rfl := Datum.text.inj (Datum.toTypeName_eq_ok named).1
    rfl
  obtain rfl := asked _ _ means rfl rfl
  obtain ⟨found, rfl, none_found⟩ := answered
  obtain rfl := none_found.mpr rfl
  obtain ⟨still, event, published, _, only⟩ := refusal rfl
  obtain rfl := Option.some.inj published
  exact ⟨s₃, _, e₃, rfl, shown, run, still, only fun _ _ => rfl⟩

end Board

end Autotile
