import Autotile.Proofs.Board.Reading
import Autotile.Proofs.Studio.Commands
import Autotile.Studio.Session

/-! # Boards stay sound

Whatever is asked of a desk, whether it succeeds or fails, and whatever its hearers ask of it
meanwhile, a sound board stays sound, and the number of an entity that is gone is not seen again. -/
namespace Autotile

open Edit

structure Board.Advance (b b' : Board) : Prop where
  sound : b'.Sound
  numbers : b.nextId ≤ b'.nextId
  gone : ∀ id < b.nextId, id ∉ b.indexed → id ∉ b'.indexed

namespace Board

variable {b : Board} {layer : Layer} {cell : Cell} {id : EntityId}

theorem Advance.refl (h : b.Sound) : b.Advance b := ⟨h, Nat.le_refl _, fun _ _ hid => hid⟩

theorem Advance.trans {a b c : Board} (h : a.Advance b) (h' : b.Advance c) : a.Advance c :=
  ⟨h'.sound, Nat.le_trans h.numbers h'.numbers, fun id hlt hid =>
    h'.gone id (Nat.lt_of_lt_of_le hlt h.numbers) (h.gone id hlt hid)⟩

namespace Sound

theorem advance_setFragments (h : b.Sound) (id : EntityId) (fragments : List Fragment) :
    b.Advance (b.setFragments id fragments) :=
  ⟨h.setFragments id fragments, Nat.le_refl _, fun _ _ hid => hid⟩

theorem advance_sorted (h : b.Sound) {order : List EntityId} (ho : b.sorted b.indexed = .ok order) :
    b.Advance (b.setOrder order) :=
  ⟨h.sorted ho, Nat.le_refl _, fun _ _ hid => hid⟩

theorem advance_insert (h : b.Sound) (free : b.find? layer cell = none) (keyed : cell.Keyed)
    {type : String} (named : type ≠ "") : b.Advance (b.insert layer cell type) := by
  refine ⟨h.insert free keyed named, Nat.le_succ _, fun id hlt hid hi => ?_⟩
  rcases (mem_indexed_insert b layer cell type).mp hi with hi | rfl
  · exact hid hi
  · exact Nat.lt_irrefl _ hlt

theorem advance_withdraw (h : b.Sound) (found : b.find? layer cell = some id) :
    b.Advance ((b.vacate layer cell).setOrder (b.paintOrder.erase id)) := by
  refine ⟨h.withdraw found, ?_, fun j _ hj hi => hj ((h.mem_indexed_vacate found).mp hi).1⟩
  cases layer <;> exact Nat.le_refl _

theorem advance_delete (h : b.Sound) (gone : id ∉ b.indexed) : b.Advance (b.delete id) :=
  ⟨h.delete gone, Nat.le_refl _, fun _ _ hid => hid⟩

theorem advance_clear (h : b.Sound) : b.Advance b.clear :=
  ⟨h.clear, Nat.le_refl _, fun _ _ _ hi => nomatch hi⟩

end Sound

end Board

/-- From a sound board an edit goes only to boards that are an advance on it. -/
def advancing : Course where
  done b b' := b.Sound → b.Advance b'
  failed b b' := b.Sound → b.Advance b'
  refl _ h := .refl h
  trans h h' hb := (h hb).trans (h' (h hb).sound)
  stay _ h := .refl h
  lead h h' hb := (h hb).trans (h' (h hb).sound)

/-- What a course must admit for edits to follow it. An entity is removed in two steps, and between
them the board may go wherever the course leads. -/
structure Course.Admits (C : Course) : Prop where
  redraw : ∀ b id fragments, C.done b (b.setFragments id fragments)
  paint : ∀ {b : Board} {order : List EntityId}, b.sorted b.indexed = .ok order →
    C.done b (b.setOrder order)
  insert : ∀ {b : Board} {layer : Layer} {cell : Cell} {type : String},
    b.find? layer cell = none → cell.Keyed → type ≠ "" → C.done b (b.insert layer cell type)
  strike : ∀ {b b' : Board} {layer : Layer} {cell : Cell} {id : EntityId},
    b.find? layer cell = some id →
      C.failed ((b.vacate layer cell).setOrder (b.paintOrder.erase id)) b' → C.failed b b'
  withdraw : ∀ {b b' : Board} {layer : Layer} {cell : Cell} {id : EntityId},
    b.find? layer cell = some id →
      C.done ((b.vacate layer cell).setOrder (b.paintOrder.erase id)) b' →
        C.done b (b'.delete id)
  lose : ∀ {b : Board} {layer : Layer} {cell : Cell} {id : EntityId},
    b.find? layer cell = some id → b.entity? id = none → C.failed b (b.vacate layer cell)
  clear : ∀ b : Board, C.done b b.clear

theorem advancing_admits : advancing.Admits where
  redraw _ id fragments hb := hb.advance_setFragments id fragments
  paint ho hb := hb.advance_sorted ho
  insert free keyed named hb := hb.advance_insert free keyed named
  strike found moved hb :=
    have struck := hb.advance_withdraw found
    struck.trans (moved struck.sound)
  withdraw := by
    intro b b' layer cell id found moved hb
    have struck := hb.advance_withdraw found
    have unindexed : id ∉ (b.vacate layer cell).indexed := fun hi =>
      ((hb.mem_indexed_vacate found).mp hi).2 rfl
    have old : id < b.nextId :=
      hb.indexed_lt (Board.mem_indexed.mpr ⟨layer, cell, hb.find?_eq_some_iff.mp found⟩)
    have advance := moved struck.sound
    have gone := advance.gone id (Nat.lt_of_lt_of_le old struck.numbers) unindexed
    exact (struck.trans advance).trans (advance.sound.advance_delete gone)
  lose := by
    intro b layer cell id found unknown hb
    obtain ⟨e, known, _⟩ := hb.entity?_of_find? found
    cases unknown.symm.trans known
  clear _ hb := hb.advance_clear

namespace Edit

variable {α : Type} {C : Course} {s : Studio}

theorem Follows.after_alter {x : Edit α} (hx : Follows C x) {f : Board → Board}
    (h : C.done s.board (f s.board)) : Ends (alter f >>= fun _ => x) s
      (fun _ t => C.done s.board t.board) (fun _ t => C.failed s.board t.board) := by
  rw [ends_alter_bind]
  exact (hx.ends _).mono (fun _ _ ht => C.trans h ht) (fun _ _ ht => C.lead h ht)

theorem Ends.imp {p : Prop} {x : Edit α} {done : α → Studio → Prop} {failed : Fault → Studio → Prop}
    (h : p → Ends x s done failed) :
    Ends x s (fun a t => p → done a t) (fun fault t => p → failed fault t) :=
  ⟨fun hx hp => (h hp).of_ok hx, fun hx hp => (h hp).of_error hx⟩

end Edit

namespace Desk

variable {d : Desk} {s : Studio}

theorem refuse_ends {done : Unit → Studio → Prop} {failed : Fault → Studio → Prop}
    {layer : Layer} {cell : Cell} {reason : Refusal}
    (published : ∀ event u, u.board = s.board → Ends (d.publish event) u done failed) :
    Ends (d.refuse layer cell reason) s done failed := by
  cases reason with
  | occupied => exact (ends_bind _ _).mpr ((ends_note _).mpr (published _ _ rfl))
  | empty => exact (ends_bind _ _).mpr ((ends_note _).mpr (published _ _ rfl))

/-- Once its cell is vacated an entity is struck off the painting order and then deleted. In
between, those who hear of it may have brought the board to any that they may leave. -/
theorem discard_ends {b : Board} {layer : Layer} {cell : Cell} {id : EntityId} {left : Board → Prop}
    {failed : Fault → Studio → Prop} (hs : s.board = b.vacate layer cell)
    (struck : left ((b.vacate layer cell).setOrder (b.paintOrder.erase id)))
    (published : ∀ event u, u.board = (b.vacate layer cell).setOrder (b.paintOrder.erase id) →
      Ends (d.publish event) u (fun _ t => left t.board) failed) :
    Ends (d.discard id) s (fun _ t => ∃ b', left b' ∧ t.board = b'.delete id) failed := by
  have order : s.board.paintOrder = b.paintOrder := by
    rw [hs]
    cases layer <;> rfl
  unfold discard
  rw [ends_bind, ends_consult_ok, order]
  by_cases hc : b.paintOrder.contains id = true
  · rw [if_pos hc, ends_bind, ends_alter, ends_bind, hs]
    refine (published _ _ rfl).mono (fun _ t ht => ?_) fun _ _ hf => hf
    exact (ends_alter _).mpr ⟨t.board, ht, rfl⟩
  · have whole : b.paintOrder.erase id = b.paintOrder :=
      List.erase_of_not_mem fun hm => hc (List.contains_iff_mem.mpr hm)
    have same : (b.vacate layer cell).setOrder b.paintOrder = b.vacate layer cell := by
      cases layer <;> rfl
    rw [whole, same] at struck
    rw [if_neg hc, ends_alter, hs]
    exact ⟨_, struck, rfl⟩

section Admitted

variable {C : Course} (hear : ∀ event, Edit.Follows C.steady (d.hear event))
include hear

private theorem admitted_publish (event : Event) : Edit.Follows C (d.publish event) :=
  Edit.Follows.publish (hear event).of_steady

private theorem admitted_refuse (layer : Layer) (cell : Cell) (reason : Refusal) :
    Edit.Follows C (d.refuse layer cell reason) :=
  follows_refuse (fun event => (hear event).of_steady) layer cell reason

variable (admits : C.Admits)
include admits

private theorem admitted_refreshAs (named : Datum) (id : EntityId) :
    Edit.Follows C (d.refreshAs named id) :=
  follows_refreshAs (fun event => (hear event).of_steady) admits.redraw named id

private theorem admitted_cascade (cell : Cell) : Edit.Follows C (d.cascade cell) :=
  follows_cascade (admitted_refreshAs hear admits) cell

private theorem admitted_repaint : Edit.Follows C d.repaint := by
  refine Edit.Follows.consult_bind fun order s ho => ?_
  exact (admitted_publish hear _).after_alter (admits.paint ho)

private theorem admitted_add (layer : Layer) (cell : Cell) {type : String} (named : type ≠ "") :
    Edit.Follows C (d.add layer cell type) := by
  refine Edit.Follows.consult_bind fun _ s hk => ?_
  rw [ends_bind, ends_consult_ok]
  by_cases hb : s.board.blocks layer cell = true
  · rw [if_pos hb]
    exact ((admitted_refuse hear layer cell _).bind fun _ => follows_pure _).ends s
  · rw [if_neg hb, ends_bind, ends_consult_ok]
    have rest : Edit.Follows C (do
        if layer = .tile then let _ ← d.refresh s.board.nextId
        d.repaint
        if layer = .tile then let _ ← d.cascade cell
        d.publish (.added layer s.board.nextId cell type)
        return some s.board.nextId) :=
      follows_when (admitted_refreshAs hear admits _ _) ((admitted_repaint hear admits).bind
        fun _ => follows_when (admitted_cascade hear admits cell)
          ((admitted_publish hear _).bind fun _ => follows_pure _))
    exact rest.after_alter
      (admits.insert (Board.find?_eq_none_of_blocks hb) (Cell.checkKey_eq_ok hk) named)

private theorem admitted_discard {b : Board} {layer : Layer} {cell : Cell} {id : EntityId}
    {s : Studio} (found : b.find? layer cell = some id) (hs : s.board = b.vacate layer cell) :
    Ends (d.discard id) s (fun _ t => C.done b t.board) (fun _ t => C.failed b t.board) := by
  have heard : ∀ event u, u.board = (b.vacate layer cell).setOrder (b.paintOrder.erase id) →
      Ends (d.publish event) u (fun _ t => C.done
        ((b.vacate layer cell).setOrder (b.paintOrder.erase id)) t.board)
        (fun _ t => C.failed b t.board) := by
    intro event u hu
    refine ((admitted_publish hear event).ends u).mono (fun _ t ht => ?_) fun _ t ht => ?_
    · rwa [hu] at ht
    · rw [hu] at ht
      exact admits.strike found ht
  refine (discard_ends hs (C.refl _) heard).mono (fun _ t ht => ?_) fun _ _ ht => ht
  obtain ⟨b', moved, ht⟩ := ht
  rw [ht]
  exact admits.withdraw found moved

private theorem admitted_remove (layer : Layer) (cell : Cell) :
    Edit.Follows C (d.remove layer cell) := by
  refine Edit.Follows.consult_bind fun found s hf => ?_
  obtain ⟨_, hf⟩ := Board.idAt_eq_ok hf
  cases found with
  | none => exact ((admitted_refuse hear layer cell _).bind fun _ => follows_pure _).ends s
  | some id =>
    refine ends_alter_bind.mpr (ends_consult_bind.mpr ⟨fun e _ => ?_, fun fault unknown => ?_⟩)
    · have rest : Edit.Follows C (do
          if layer = .tile then let _ ← d.cascade cell
          d.publish (.removed layer id cell e.type)
          return true) :=
        follows_when (admitted_cascade hear admits cell) ((admitted_publish hear _).bind
          fun _ => follows_pure _)
      refine (ends_bind _ _).mpr ((admitted_discard hear admits hf rfl).mono (fun _ t ht => ?_)
        fun _ _ ht => ht)
      exact (rest.ends t).mono (fun _ _ h => C.trans ht h) fun _ _ h => C.lead ht h
    · apply admits.lose hf
      cases known : s.board.entity? id with
      | none => rfl
      | some e =>
        have answered : (s.board.vacate layer cell).entity id = .ok e :=
          Board.entity_of_entity? (by rwa [Board.entity?_vacate])
        cases answered.symm.trans unknown

/-- A course that admits what edits do is followed by every command, if those who hear of the edits
follow it. -/
theorem follows_admitted : d.Follows C where
  hear := hear
  refreshAs := admitted_refreshAs hear admits
  cascade := admitted_cascade hear admits
  add layer cell _ named := admitted_add hear admits layer cell named
  remove := admitted_remove hear admits
  clear := (follows_alter admits.clear).bind fun _ => admitted_publish hear _

end Admitted

theorem follows_advancing (hear : ∀ event, Edit.Follows advancing (d.hear event)) :
    d.Follows advancing :=
  follows_admitted hear advancing_admits

end Desk

namespace Board

/-- Boards that commands lead to, however they end. Those who hear of an edit may carry out others
before it goes on. -/
inductive Evolves (book : Rulebook) (offsets : List Cell) : Board → Board → Prop
  | refl (b : Board) : Evolves book offsets b b
  | run {b : Board} {s : Studio} (hear : Event → Edit Unit)
      (heard : ∀ event t, Evolves book offsets t.board (after (hear event) t).board)
      (before : Evolves book offsets b s.board) (command : Command) :
      Evolves book offsets b (after (command.run ⟨book, offsets, hear⟩) s).board

/-- Boards that a session may have, from a board without entities. -/
def Reachable (book : Rulebook) (offsets : List Cell) (b : Board) : Prop :=
  ∃ fixtures, Evolves book offsets { fixtures } b

variable {book : Rulebook} {offsets : List Cell} {b b' : Board}

theorem Evolves.advance (h : Evolves book offsets b b') (hb : b.Sound) : b.Advance b' := by
  induction h with
  | refl b => exact .refl hb
  | @run _ s hear heard before command ihear ih =>
    have desk : Desk.Follows ⟨book, offsets, hear⟩ advancing :=
      Desk.follows_advancing fun event => ⟨fun t => ends_after.mpr (ihear event t)⟩
    have step : s.board.Sound →
        s.board.Advance (after (command.run ⟨book, offsets, hear⟩) s).board :=
      ends_after.mp ((desk.run command).ends s)
    exact (ih hb).trans (step (ih hb).sound)

theorem Evolves.trans {b'' : Board} (h : Evolves book offsets b b')
    (h' : Evolves book offsets b' b'') : Evolves book offsets b b'' := by
  induction h' with
  | refl => exact h
  | run hear heard _ command _ ih => exact .run hear heard (ih h) command

theorem Reachable.sound (h : Reachable book offsets b) : b.Sound := by
  obtain ⟨fixtures, h⟩ := h
  exact (h.advance (sound_fresh fixtures)).sound

end Board

section Sessions

variable {book : Rulebook} {offsets : List Cell}

private theorem takeCue_board (event : String) (s : Studio) :
    Ends (takeCue event) s (fun _ t => t.board = s.board) (fun _ t => t.board = s.board) := by
  unfold takeCue
  rw [ends_modifyGet]
  cases s.cues.find? (·.1 = event) <;> rfl

theorem hearCues_evolves (depth : Nat) (event : Event) (s : Studio) :
    Board.Evolves book offsets s.board (after (hearCues book offsets depth event) s).board := by
  induction depth generalizing event s with
  | zero => exact .refl _
  | succ depth ih =>
    -- the hearers of the cue's own edits are those of the lesser depth
    refine ends_after (P := fun t => Board.Evolves book offsets s.board t.board) |>.mp ?_
    unfold hearCues
    rw [ends_bind]
    refine (takeCue_board event.name s).mono (fun cue t ht => ?_) fun _ t ht => ht ▸ .refl _
    cases cue with
    | none => exact (ends_pure _).mpr (ht ▸ .refl _)
    | some command =>
      rw [← ht]
      have run := ends_after (P := fun u => Board.Evolves book offsets t.board u.board) |>.mpr
        (Board.Evolves.run _ ih (.refl t.board) command)
      exact (ends_bind _ _).mpr (run.mono (fun _ u hu => (ends_pure _).mpr hu) fun _ _ hu => hu)

namespace Session

theorem step_evolves (s : Session) (command : Command) :
    Board.Evolves s.book s.offsets s.studio.board (s.step command).2.studio.board := by
  have run := Board.Evolves.run (s := { s.studio with events := [], notices := [] })
    (hearCues s.book s.offsets (s.studio.waiting + command.weight))
    (hearCues_evolves _) (.refl s.studio.board) command
  unfold step desk
  cases hr : command.run ⟨s.book, s.offsets,
    hearCues s.book s.offsets (s.studio.waiting + command.weight)⟩
    { s.studio with events := [], notices := [] } with
  | ok answer t =>
    rw [after_of_ok hr] at run
    simpa only [hr] using run
  | error fault t =>
    rw [after_of_error hr] at run
    simpa only [hr] using run

theorem step_rules (s : Session) (command : Command) :
    (s.step command).2.book = s.book ∧ (s.step command).2.offsets = s.offsets := by
  unfold step
  dsimp only
  cases command.run (s.desk command.weight) { s.studio with events := [], notices := [] } <;>
    exact ⟨rfl, rfl⟩

theorem step_reachable {s : Session} (h : s.studio.board.Reachable s.book s.offsets)
    (command : Command) : (s.step command).2.studio.board.Reachable (s.step command).2.book
      (s.step command).2.offsets := by
  obtain ⟨fixtures, h⟩ := h
  rw [(s.step_rules command).1, (s.step_rules command).2]
  exact ⟨fixtures, h.trans (s.step_evolves command)⟩

theorem start_reachable {setup : Setup} {book : Rulebook} {offsets : Option (List Cell)}
    {notices : List Notice} {report : Report} {s : Session}
    (h : start setup book offsets notices = .ok (report, s)) :
    s.studio.board.Reachable s.book s.offsets := by
  refine ⟨setup.fixtures, ?_⟩
  unfold start at h
  cases hd : setup.data? with
  | none =>
    simp only [hd, Except.ok.injEq, Prod.mk.injEq] at h
    obtain ⟨_, rfl⟩ := h
    exact .refl _
  | some data =>
    have run := ends_after (P := fun t => Board.Evolves book (offsets.getD book.cascadeOffsets)
      { fixtures := setup.fixtures } t.board) |>.mpr (Board.Evolves.run (s := setup.studio notices)
        (hearCues book (offsets.getD book.cascadeOffsets) ((setup.studio notices).waiting + 0))
        (hearCues_evolves _) (.refl _) (.load data true))
    have run := (ends_bind _ _).mp run
    simp only [hd] at h
    cases hl : (desk ⟨book, offsets.getD book.cascadeOffsets, setup.studio notices⟩ 0).load
        data true (setup.studio notices) with
    | ok n t =>
      simp only [hl, Except.ok.injEq, Prod.mk.injEq] at h
      obtain ⟨_, rfl⟩ := h
      exact (ends_pure (Answer.count n)).mp (run.of_ok hl)
    | error fault t =>
      simp only [hl] at h
      cases h

end Session

end Sessions

end Autotile
