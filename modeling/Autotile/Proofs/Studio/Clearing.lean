import Autotile.Proofs.Studio.Correspondence
import Autotile.Proofs.Studio.Straying

/-! # A cleared map is as good as new

To clear the map leaves one thing behind: numbers that were given are not given again. So a session
goes on from there as one that has just begun, but for the numbers of entities. These are moved up
by as many as were given before, and keep their order. -/
namespace Autotile

open Edit

/-! ## Sessions that differ in numbers only -/

section Cues

variable {ρ : Renumbering}

theorem Command.weights_renumber (ρ : Renumbering) (cues : List (String × Command)) :
    weights ((cues.map fun cue => (cue.1, cue.2.renumber ρ)).map (·.2)) =
      weights (cues.map (·.2)) := by
  rw [← weights_renumberAll ρ (cues.map (·.2)), renumberAll_eq_map, List.map_map, List.map_map]
  rfl

theorem takeCue_run (event : String) (s : Studio) : takeCue event s =
    match s.cues.find? (·.1 = event) with
    | some cue => .ok (some cue.2) { s with cues := s.cues.eraseP (·.1 = event) }
    | none => .ok none s := by
  change EStateM.Result.ok _ _ = _
  cases s.cues.find? (·.1 = event) <;> rfl

theorem corresponds_takeCue (event : String) :
    Corresponds ρ (Option.map (Command.renumber ρ)) (takeCue event) (takeCue event) := by
  constructor
  intro s s' hs
  have found : s'.cues.find? (·.1 = event) =
      (s.cues.find? (·.1 = event)).map fun cue => (cue.1, cue.2.renumber ρ) := by
    rw [hs.cues, List.find?_map]
    rfl
  have left : s'.cues.eraseP (·.1 = event) =
      (s.cues.eraseP (·.1 = event)).map fun cue => (cue.1, cue.2.renumber ρ) := by
    rw [hs.cues, List.eraseP_map]
    rfl
  rw [takeCue_run, takeCue_run, found]
  cases s.cues.find? (·.1 = event) with
  | none => exact .ok hs
  | some cue => exact .ok { hs with cues := left }

theorem corresponds_hearCues (ρ : Renumbering) (book : Rulebook) (offsets : List Cell)
    (depth : Nat) (event : Event) : Corresponds ρ id (hearCues book offsets depth event)
      (hearCues book offsets depth (event.renumber ρ)) := by
  induction depth generalizing event with
  | zero => exact corresponds_pure id ()
  | succ depth ih =>
    unfold hearCues
    rw [event.name_renumber ρ]
    apply (corresponds_takeCue event.name).bind
    rintro (_ | command)
    · exact corresponds_pure id ()
    · have desk : Desk.Corresponds ρ ⟨book, offsets, hearCues book offsets depth⟩
          ⟨book, offsets, hearCues book offsets depth⟩ := ⟨rfl, rfl, ih⟩
      exact (desk.run command).bind fun _ => corresponds_pure id ()

end Cues

def Report.renumber (ρ : Renumbering) (report : Report) : Report :=
  { report with
    answer := ρ.reads (Answer.renumber ρ) report.answer
    events := report.events.map (Event.renumber ρ)
    order := report.order.map ρ }

/-- The second session has come to where the first is, under other numbers. What was published
and logged before is no part of it. -/
structure Session.Renumbers (ρ : Renumbering) (s s' : Session) : Prop where
  book : s'.book = s.book
  offsets : s'.offsets = s.offsets
  board : s.studio.board.Renumbers ρ s'.studio.board
  brush : s'.studio.brush = s.studio.brush
  cues : s'.studio.cues = s.studio.cues.map fun cue => (cue.1, cue.2.renumber ρ)

theorem Session.steps_cons (s : Session) (command : Command) (commands : List Command) :
    s.steps (command :: commands) = (s.step command).1 :: (s.step command).2.steps commands := rfl

namespace Session.Renumbers

variable {ρ : Renumbering} {s s' : Session}

theorem desk (h : s.Renumbers ρ s') (command : Command) :
    Desk.Corresponds ρ (s.desk command.weight) (s'.desk (command.renumber ρ).weight) := by
  have waiting : s'.studio.waiting = s.studio.waiting := by
    unfold Studio.waiting
    rw [h.cues, Command.weights_renumber]
  unfold Session.desk
  rw [h.book, h.offsets, waiting, Command.weight_renumber]
  exact ⟨rfl, rfl, corresponds_hearCues ρ s.book s.offsets _⟩

theorem step (h : s.Renumbers ρ s') (command : Command) :
    (s'.step (command.renumber ρ)).1 = (s.step command).1.renumber ρ ∧
      (s.step command).2.Renumbers ρ (s'.step (command.renumber ρ)).2 := by
  let fresh (s : Session) : Studio := { s.studio with events := [], notices := [] }
  have start : (fresh s).Renumbers ρ (fresh s') := ⟨h.board, h.brush, rfl, rfl, h.cues⟩
  have ends := ((h.desk command).run command).ends start
  have reported : ∀ {t t' : Studio} (answer : Except Fault Answer), t.Renumbers ρ t' →
      report (ρ.reads (Answer.renumber ρ) answer) t' = (report answer t).renumber ρ := by
    intro t t' answer ht
    have counted : ∀ layer, (t'.board.index layer).length = (t.board.index layer).length := by
      intro layer
      rw [ht.board.index, List.length_map]
    have tiles := counted .tile
    have objects := counted .object
    unfold report Report.renumber
    rw [Report.mk.injEq]
    exact ⟨rfl, ht.events, ht.notices, tiles, objects, ht.board.paintOrder⟩
  have went : ∀ {t t' : Studio}, t.Renumbers ρ t' →
      Session.Renumbers ρ { s with studio := t } { s' with studio := t' } := fun ht =>
    ⟨h.book, h.offsets, ht.board, ht.brush, ht.cues⟩
  unfold Session.step
  dsimp only [fresh] at ends ⊢
  generalize command.run (s.desk command.weight) _ = r at ends ⊢
  generalize (command.renumber ρ).run (s'.desk (command.renumber ρ).weight) _ = r' at ends ⊢
  cases ends with
  | @ok answer _ _ left => exact ⟨reported (.ok answer) left, went left⟩
  | @error fault _ _ left => exact ⟨reported (.error fault) left, went left⟩

theorem steps (h : s.Renumbers ρ s') (commands : List Command) :
    s'.steps (commands.map (Command.renumber ρ)) = (s.steps commands).map (Report.renumber ρ) := by
  induction commands generalizing s s' with
  | nil => rfl
  | cons command commands ih =>
    have first := h.step command
    rw [List.map_cons, steps_cons, steps_cons, List.map_cons, first.1, ih first.2]

end Session.Renumbers

/-! ## The cleared board -/

namespace Board

variable {book : Rulebook} {offsets : List Cell} {b : Board}

/-- How entities will be numbered once the board is cleared, by the numbers that they would get on
a board that never held any. The numbers that were given before are idle from then on. -/
def renumbering (b : Board) : Renumbering := .upTo b.fixtures b.nextId

theorem Settled.renumbers_clear (settled : Settled book offsets b) :
    Renumbers b.renumbering { fixtures := b.fixtures } b.clear := by
  have unknown : ∀ id, b.clear.entity? id = none := by
    intro id
    rw [entity?_clear]
    by_cases stands : id ∈ b.indexed
    · rw [if_pos stands]
    · rw [if_neg stands, ← Option.not_isSome_iff_eq_none]
      intro known
      obtain ⟨e, known⟩ := Option.isSome_iff_exists.mp known
      exact stands (settled.indexed known)
  constructor
  case fixtures => rfl
  case fixtures' => rfl
  case entity? => exact fun id => unknown (b.renumbering id)
  case unnamed => exact fun id _ => unknown id
  case index =>
    intro layer
    rw [index_clear]
    cases layer <;> rfl
  case paintOrder => rfl
  case sequence => rfl
  case nextId => exact (Renumbering.upTo_next settled.fixtures_lt).symm
  case beyond => exact Nat.lt_succ_self b.fixtures

end Board

/-! ## Sessions that go on from a cleared map -/

theorem hearCues_of_unheard {book : Rulebook} {offsets : List Cell} {event : Event} {s : Studio}
    (unheard : ∀ cue ∈ s.cues, cue.1 ≠ event.name) (depth : Nat) :
    hearCues book offsets depth event s = .ok () s := by
  have none : s.cues.find? (·.1 = event.name) = none := by
    rw [List.find?_eq_none]
    intro cue listed
    simpa using unheard cue listed
  have taken : takeCue event.name s = .ok .none s := by rw [takeCue_run, none]
  cases depth with
  | zero => rfl
  | succ depth =>
    apply run_of_ends
    unfold hearCues
    rw [ends_bind, ends_iff_of_ok taken]
    exact (ends_pure _).mpr ⟨rfl, rfl⟩

namespace Session

/-- Another session by the same rules, with the same brush at hand. Its map never held anything,
and the like commands wait for the same events. -/
structure Fresh (s fresh : Session) : Prop where
  book : fresh.book = s.book
  offsets : fresh.offsets = s.offsets
  board : fresh.studio.board = { fixtures := s.studio.board.fixtures }
  brush : fresh.studio.brush = s.studio.brush
  cues : s.studio.cues =
    fresh.studio.cues.map fun cue => (cue.1, cue.2.renumber s.studio.board.renumbering)

variable {s fresh : Session}

/-- When nobody waits for it, to clear the map is to empty the board and to publish that. -/
theorem step_clear (unheard : ∀ cue ∈ s.studio.cues, cue.1 ≠ Event.cleared.name) :
    let studio : Studio :=
      { s.studio with board := s.studio.board.clear, events := [.cleared], notices := [] }
    s.step .clear = (report (.ok .nothing) studio, { s with studio }) := by
  intro studio
  have run : Command.clear.run (s.desk Command.clear.weight)
      { s.studio with events := [], notices := [] } = .ok .nothing studio := by
    apply run_of_ends
    unfold Command.run Desk.clear Desk.publish
    rw [ends_bind, ends_bind, ends_alter, ends_bind, ends_record]
    have heard : (s.desk Command.clear.weight).hear .cleared studio = .ok () studio :=
      hearCues_of_unheard (s := studio) unheard _
    exact (ends_iff_of_ok heard).mpr ((ends_pure _).mpr ⟨rfl, rfl⟩)
  unfold step
  dsimp only
  rw [run]

/-- A session that clears its map goes on as one that begins: the like commands get the like
answers, fail with the like faults and publish the like events, and the painting order is alike
after each. Only the numbers of entities differ, and those are in the same order. A command may give
any number for an entity, also one of an entity that is gone. -/
theorem cleared_map_like_fresh (settled : s.studio.board.Settled s.book s.offsets)
    (unheard : ∀ cue ∈ s.studio.cues, cue.1 ≠ Event.cleared.name) (like : s.Fresh fresh) :
    (s.step .clear).1.answer = .ok .nothing ∧
      StrictMono s.studio.board.renumbering ∧
      Function.Surjective s.studio.board.renumbering.name ∧
      ∀ commands, (s.step .clear).2.steps (commands.map (·.renumber s.studio.board.renumbering)) =
        (fresh.steps commands).map (·.renumber s.studio.board.renumbering) := by
  have empty := settled.renumbers_clear
  rw [← like.board] at empty
  rw [step_clear unheard]
  have alike : fresh.Renumbers s.studio.board.renumbering
      { s with studio :=
          { s.studio with board := s.studio.board.clear, events := [.cleared], notices := [] } } :=
    ⟨like.book.symm, like.offsets.symm, empty, like.brush.symm, like.cues⟩
  refine ⟨rfl, s.studio.board.renumbering.mono, ?_, alike.steps⟩
  exact Renumbering.upTo_name_surjective settled.fixtures_lt

/-- After two rocks the map is cleared and another is put. It is numbered 4 where the first rock of
a fresh map is numbered 2, and what can be asked of 2 there can be asked of 4 here. One of the two
rocks that are gone is as unknown here as the number below zero is there. -/
theorem cleared_map_like_fresh_third_rock :
    let d : Desk := ⟨.empty, [], fun _ => pure ()⟩
    let put (cell : Cell) : Command := .add .tile (.cell cell) (.text "rock")
    let start : Studio := { board := { fixtures := 1 } }
    let s : Session := ⟨.empty, [], after ((put ⟨1, 0, 0⟩).run d)
      (after ((put Cell.origin).run d) start)⟩
    let fresh : Session := ⟨.empty, [], start⟩
    (∃ report, Session.start .map .empty (some []) [] = .ok (report, fresh)) ∧
      s.studio.board.tiles = [(Cell.origin, 2), (⟨1, 0, 0⟩, 3)] ∧
      s.studio.board.Settled s.book s.offsets ∧
      (∀ cue ∈ s.studio.cues, cue.1 ≠ Event.cleared.name) ∧ s.Fresh fresh ∧
      (fresh.step (put Cell.origin)).1.answer = .ok (.entity (some 2)) ∧
      ((s.step .clear).2.step (put Cell.origin)).1.answer = .ok (.entity (some 4)) ∧
      (fresh.steps [put Cell.origin, .position (.int 2), .refresh (.int (-1))]).map (·.order) =
        [[2], [2], [2]] ∧
      ((s.step .clear).2.steps [put Cell.origin, .position (.int 4), .refresh (.int 2)]).map
        (·.order) = [[4], [4], [4]] ∧
      (s.step .clear).2.steps [put Cell.origin, .position (.int 4), .refresh (.int 2)] =
        (fresh.steps [put Cell.origin, .position (.int 2), .refresh (.int (-1))]).map
          (·.renumber s.studio.board.renumbering) := by
  intro d put start s fresh
  have quiet : Quiet d.hear := fun _ _ => rfl
  have first : Board.Reached .empty [] (after ((put Cell.origin).run d) start).board :=
    Board.Reached.run_after (s := start) (.fresh 1) quiet _ (by decide +kernel)
  have second := first.run_after quiet (put ⟨1, 0, 0⟩) (by decide +kernel)
  have settled : s.studio.board.Settled s.book s.offsets := second.settled
  have nobody : s.studio.cues = [] := by decide +kernel
  have unheard : ∀ cue ∈ s.studio.cues, cue.1 ≠ Event.cleared.name := by
    rw [nobody]
    exact fun _ listed => nomatch listed
  have one : s.studio.board.fixtures = 1 := by decide +kernel
  have four : s.studio.board.nextId = 4 := by decide +kernel
  have like : s.Fresh fresh := by
    constructor
    case book => rfl
    case offsets => rfl
    case board => rw [one]
    case brush => decide +kernel
    case cues =>
      rw [nobody]
      rfl
  have renamed : [put Cell.origin, .position (.int 2), .refresh (.int (-1))].map
      (Command.renumber s.studio.board.renumbering) =
        [put Cell.origin, .position (.int 4), .refresh (.int 2)] := by
    rw [Board.renumbering, one, four]
    rfl
  have same := (cleared_map_like_fresh settled unheard like).2.2.2
    [put Cell.origin, .position (.int 2), .refresh (.int (-1))]
  rw [renamed] at same
  have two : (fresh.step (put Cell.origin)).1.answer = .ok (.entity (some 2)) := by
    have found : (match (fresh.step (put Cell.origin)).1.answer with
      | .ok (.entity id) => id
      | _ => none) = some 2 := by decide +kernel
    split at found
    · next id answered => rw [answered, found]
    · cases found
  have moved : s.studio.board.renumbering 2 = 4 := by
    rw [Board.renumbering, one, four]
    rfl
  have first : ((s.step .clear).2.step (put Cell.origin)).1 =
      (fresh.step (put Cell.origin)).1.renumber s.studio.board.renumbering := by
    have reports := same
    rw [steps_cons, steps_cons fresh, List.map_cons] at reports
    exact (List.cons.inj reports).1
  have fourth : ((s.step .clear).2.step (put Cell.origin)).1.answer = .ok (.entity (some 4)) := by
    rw [first, Report.renumber, two, ← moved]
    rfl
  exact ⟨⟨_, rfl⟩, by decide +kernel, settled, unheard, like, two, fourth, by decide +kernel,
    by decide +kernel, same⟩

end Session

end Autotile
