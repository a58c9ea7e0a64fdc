import Autotile.Proofs.Board.Aging
import Autotile.Proofs.Studio.Drawing

/-! # Boards that settle

Those who hear of an edit may edit the map in the midst of it, and meanwhile an entity may be
missing from the painting order. Where every command is answered the order is that of the whole
map again when the command is done, and entities are as old as their numbers say. -/
namespace Autotile

open Edit

/-- What a run of answered commands leaves of a board: it is sound, numbers agree with ages, and
if the whole map was painted it is painted again. -/
structure Board.Keeps (b b' : Board) : Prop where
  advance : b.Advance b'
  aged : b'.Aged
  painted : b.Painted → b'.Painted

namespace Board

variable {a b c : Board}

theorem Keeps.refl (sound : b.Sound) (aged : b.Aged) : b.Keeps b :=
  ⟨.refl sound, aged, fun painted => painted⟩

theorem Keeps.trans (h : a.Keeps b) (h' : b.Keeps c) : a.Keeps c :=
  ⟨h.advance.trans h'.advance, h'.aged, fun painted => h'.painted (h.painted painted)⟩

end Board

/-- On this course an edit that answers settles. One that fails may have left an entity out of the
painting order. -/
def settling : Course where
  done b b' := b.Sound → b.Aged → b.Keeps b'
  failed _ _ := True
  refl _ sound aged := .refl sound aged
  trans h h' sound aged :=
    have kept := h sound aged
    kept.trans (h' kept.advance.sound kept.aged)
  stay _ := trivial
  lead _ _ := trivial

namespace Desk

variable {d : Desk} {s : Studio} {layer : Layer} {cell : Cell}

section Settling

variable (hear : ∀ event, Edit.Follows settling.steady (d.hear event))
include hear

private theorem hear_settling (event : Event) : Edit.Follows settling (d.hear event) :=
  (hear event).of_steady

private theorem settling_publish (event : Event) : Edit.Follows settling (d.publish event) :=
  Edit.Follows.publish (hear_settling hear event)

private theorem settling_refreshAs (named : Datum) (id : EntityId) :
    Edit.Follows settling (d.refreshAs named id) := by
  refine follows_refreshAs (hear_settling hear) (fun b id fragments sound aged => ?_) named id
  constructor
  · exact sound.advance_setFragments id fragments
  · exact aged.setFragments id fragments
  · exact fun painted => painted.setFragments id fragments

private theorem settling_cascade (cell : Cell) : Edit.Follows settling (d.cascade cell) :=
  follows_cascade (settling_refreshAs hear) cell

private theorem settling_repaint (s : Studio) :
    Ends d.repaint s
      (fun _ t => s.board.Sound → s.board.Aged → s.board.Keeps t.board ∧ t.board.Painted)
      (fun _ _ => True) := by
  refine ends_consult_bind.mpr ⟨fun order ho => ends_alter_bind.mpr ?_, fun _ _ => trivial⟩
  refine ((settling_publish hear _).ends _).mono (fun _ t ht sound aged => ?_) fun _ _ _ => trivial
  have kept := ht (sound.sorted ho) (aged.setOrder order)
  have painted : t.board.Painted := kept.painted ho
  exact ⟨⟨(sound.advance_sorted ho).trans kept.advance, kept.aged, fun _ => painted⟩, painted⟩

private theorem settling_add (layer : Layer) (cell : Cell) {type : String} (named : type ≠ "") :
    Edit.Follows settling (d.add layer cell type) := by
  refine Edit.Follows.consult_bind fun _ s hk => ?_
  rw [ends_bind, ends_consult_ok]
  by_cases hb : s.board.blocks layer cell = true
  · rw [if_pos hb]
    have refused := follows_refuse (hear_settling hear) layer cell .occupied
    exact (refused.bind fun _ => follows_pure _).ends s
  · rw [if_neg hb, ends_bind, ends_consult_ok, ends_alter_bind]
    -- from the moment the entity is painted everybody leaves the whole map painted
    have rest : ∀ u, Ends (do
          d.repaint
          if layer = .tile then let _ ← d.cascade cell
          d.publish (.added layer s.board.nextId cell type)
          return some s.board.nextId) u
        (fun _ t => u.board.Sound → u.board.Aged → u.board.Keeps t.board ∧ t.board.Painted)
        (fun _ _ => True) := by
      intro u
      refine Ends.bind (settling_repaint hear u) fun _ t ht => ?_
      have told := follows_when (p := layer = .tile) (settling_cascade hear cell)
        ((settling_publish hear (.added layer s.board.nextId cell type)).bind fun _ =>
          follows_pure (some s.board.nextId))
      refine (told.ends t).mono (fun _ v hv sound aged => ?_) fun _ _ h => h
      obtain ⟨kept, painted⟩ := ht sound aged
      have kept' := hv kept.advance.sound kept.aged
      exact ⟨kept.trans kept', kept'.painted painted⟩
    have inserted : ∀ t : Studio,
        ((s.board.insert layer cell type).Sound → (s.board.insert layer cell type).Aged →
          (s.board.insert layer cell type).Keeps t.board ∧ t.board.Painted) →
        settling.done s.board t.board := by
      intro t ht sound aged
      have advance := sound.advance_insert (Board.find?_eq_none_of_blocks hb)
        (Cell.checkKey_eq_ok hk) named
      obtain ⟨kept, painted⟩ := ht advance.sound (aged.insert sound layer cell type)
      exact ⟨advance.trans kept.advance, kept.aged, fun _ => painted⟩
    by_cases tile : layer = .tile
    · rw [if_pos tile]
      refine Ends.bind ((settling_refreshAs hear _ _).ends _) fun _ t ht => ?_
      refine (rest t).mono (fun _ u hu => inserted u fun sound aged => ?_) fun _ _ h => h
      have kept := ht sound aged
      obtain ⟨kept', painted⟩ := hu kept.advance.sound kept.aged
      exact ⟨kept.trans kept', painted⟩
    · rw [if_neg tile]
      exact (rest _).mono (fun _ u hu => inserted u hu) fun _ _ h => h

/-- The entity that lost its cell is struck off before anybody hears of it, so they find the rest
of the map painted, and leave it so. -/
private theorem settling_discard {b : Board} {id : EntityId} (sound : b.Sound) (aged : b.Aged)
    (found : b.find? layer cell = some id) (hs : s.board = b.vacate layer cell) :
    Ends (d.discard id) s (fun _ t => b.Keeps t.board) (fun _ _ => True) := by
  have struck : b.Keeps ((b.vacate layer cell).setOrder (b.paintOrder.erase id)) :=
    ⟨sound.advance_withdraw found, (aged.vacate sound found).setOrder _,
      fun painted => painted.struck sound found⟩
  have unindexed : id ∉ (b.vacate layer cell).indexed := fun hi =>
    ((sound.mem_indexed_vacate found).mp hi).2 rfl
  have old : id < b.nextId :=
    sound.indexed_lt (Board.mem_indexed.mpr ⟨layer, cell, sound.find?_eq_some_iff.mp found⟩)
  have heard : ∀ event u, u.board = (b.vacate layer cell).setOrder (b.paintOrder.erase id) →
      Ends (d.publish event) u
        (fun _ t => ((b.vacate layer cell).setOrder (b.paintOrder.erase id)).Keeps t.board)
        (fun _ _ => True) := by
    intro event u hu
    refine ((settling_publish hear event).ends u).mono (fun _ t ht => ?_) fun _ _ h => h
    rw [← hu]
    exact ht (hu ▸ struck.advance.sound) (hu ▸ struck.aged)
  refine (discard_ends hs (.refl struck.advance.sound struck.aged) heard).mono
    (fun _ t ht => ?_) fun _ _ h => h
  obtain ⟨b', kept, ht⟩ := ht
  have gone : id ∉ b'.indexed :=
    kept.advance.gone id (Nat.lt_of_lt_of_le old struck.advance.numbers) unindexed
  have deleted : b'.Keeps (b'.delete id) :=
    ⟨kept.advance.sound.advance_delete gone, kept.aged.delete gone,
      fun painted => painted.delete gone⟩
  rw [ht]
  exact (struck.trans kept).trans deleted

private theorem settling_remove (layer : Layer) (cell : Cell) :
    Edit.Follows settling (d.remove layer cell) := by
  refine Edit.Follows.consult_bind fun found s hf => ?_
  obtain ⟨_, hf⟩ := Board.idAt_eq_ok hf
  cases found with
  | none =>
    have refused := follows_refuse (hear_settling hear) layer cell .empty
    exact (refused.bind fun _ => follows_pure _).ends s
  | some id =>
    refine ends_alter_bind.mpr (ends_consult_bind.mpr ⟨fun e _ => ?_, fun _ _ => trivial⟩)
    have rest : Edit.Follows settling (do
        if layer = .tile then let _ ← d.cascade cell
        d.publish (.removed layer id cell e.type)
        return true) :=
      follows_when (settling_cascade hear cell) ((settling_publish hear _).bind fun _ =>
        follows_pure _)
    have discarded : Ends (d.discard id) { s with board := s.board.vacate layer cell }
        (fun _ t => settling.done s.board t.board) (fun _ _ => True) := by
      constructor
      · exact fun run sound aged => (settling_discard hear sound aged hf rfl).of_ok run
      · exact fun _ => trivial
    refine Ends.bind discarded fun _ t ht => ?_
    exact (rest.ends t).mono (fun _ _ h => settling.trans ht h) fun _ _ h => h

private theorem settling_clear : Edit.Follows settling d.clear := by
  refine Edit.Follows.bind (follows_alter fun b sound _ => ?_) fun _ => settling_publish hear _
  exact ⟨sound.advance_clear, .clear b, fun _ => .clear b⟩

theorem follows_settling : d.Follows settling where
  hear := hear
  refreshAs := settling_refreshAs hear
  cascade := settling_cascade hear
  add layer cell _ named := settling_add hear layer cell named
  remove := settling_remove hear
  clear := settling_clear hear

end Settling

end Desk

namespace Board

/-- Boards that answered commands lead to. Those who hear of an edit may carry out commands before
it goes on, and these are answered too. A hearer need not be the same from one command to the
next, so it is of no matter what it would do with other boards than it meets. -/
inductive Settles (book : Rulebook) (offsets : List Cell) : Board → Board → Prop
  | refl (b : Board) : Settles book offsets b b
  | run {b : Board} {s t : Studio} (hear : Event → Edit Unit)
      (heard : ∀ event u, Settles book offsets u.board (after (hear event) u).board)
      (before : Settles book offsets b s.board) {command : Command} {answer : Answer}
      (answered : command.run ⟨book, offsets, hear⟩ s = .ok answer t) :
      Settles book offsets b t.board

/-- Boards that answered commands lead to from one without entities. -/
def Settled (book : Rulebook) (offsets : List Cell) (b : Board) : Prop :=
  ∃ fixtures, Settles book offsets { fixtures } b

variable {book : Rulebook} {offsets : List Cell} {b b' : Board}

theorem Settles.attempt {hear : Event → Edit Unit}
    (heard : ∀ event u, Settles book offsets u.board (after (hear event) u).board)
    (command : Command) (u : Studio) :
    Settles book offsets u.board
      (after (attempt (command.run ⟨book, offsets, hear⟩)) u).board := by
  rw [after_attempt]
  split
  · next answered =>
    obtain ⟨answer, run⟩ := run_of_answers answered
    exact .run hear heard (.refl _) run
  · exact .refl _

theorem Settles.keeps (h : Settles book offsets b b') (sound : b.Sound) (aged : b.Aged) :
    b.Keeps b' := by
  induction h with
  | refl b => exact .refl sound aged
  | @run _ s t hear heard before command answer answered ihear ih =>
    have desk : Desk.Follows ⟨book, offsets, hear⟩ settling :=
      Desk.follows_settling fun event => ⟨fun u => ends_after.mpr (ihear event u)⟩
    have kept := ih sound aged
    have step := ((desk.run command).ends s).of_ok answered
    exact kept.trans (step kept.advance.sound kept.aged)

theorem Settled.keeps (h : Settled book offsets b) : ∃ fixtures, Keeps { fixtures } b := by
  obtain ⟨fixtures, h⟩ := h
  exact ⟨fixtures, h.keeps (sound_fresh fixtures) (aged_fresh fixtures)⟩

theorem Settled.sound (h : Settled book offsets b) : b.Sound := by
  obtain ⟨_, kept⟩ := h.keeps
  exact kept.advance.sound

theorem Settled.aged (h : Settled book offsets b) : b.Aged := by
  obtain ⟨_, kept⟩ := h.keeps
  exact kept.aged

theorem Settled.painted (h : Settled book offsets b) : b.Painted := by
  obtain ⟨fixtures, kept⟩ := h.keeps
  exact kept.painted (painted_fresh fixtures)

theorem Reached.settled (h : Reached book offsets b) : Settled book offsets b := by
  induction h with
  | fresh fixtures => exact ⟨fixtures, .refl _⟩
  | @run s t hear command answer before quiet answered ih =>
    obtain ⟨fixtures, ih⟩ := ih
    exact ⟨fixtures, ih.run hear (fun event u => quiet event u ▸ .refl _) answered⟩

end Board

end Autotile
