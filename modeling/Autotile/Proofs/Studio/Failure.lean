import Autotile.Proofs.Board.Drawing
import Autotile.Proofs.Studio.Evolution

/-! # What an edit leaves behind

Where those who hear of edits are silent, an edit of one cell comes to one of three things: it
does nothing, it moves the board to its new content, or it does so and then fails at a number
that is too large. -/
namespace Autotile

open Edit

/-- Those who hear of an edit neither fail nor touch the board. -/
def Silent (hear : Event → Edit Unit) : Prop :=
  ∀ event s, ∃ t, hear event s = .ok () t ∧ t.board = s.board

theorem silent_nobody : Silent fun _ => pure () := fun _ s => ⟨s, rfl, rfl⟩

structure Board.Redrawn (b b' : Board) : Prop where
  sound : b'.Sound
  index : ∀ layer, b'.index layer = b.index layer

theorem Board.Redrawn.refl {b : Board} (h : b.Sound) : b.Redrawn b := ⟨h, fun _ => rfl⟩

theorem Board.Redrawn.trans {a b c : Board} (h : a.Redrawn b) (h' : b.Redrawn c) : a.Redrawn c :=
  ⟨h'.sound, fun layer => (h'.index layer).trans (h.index layer)⟩

/-- What an edit at a cell reads of a board, however the board is redrawn meanwhile, fails only in
certain ways. -/
structure Desk.Reads (P : Fault → Prop) (d : Desk) (cell : Cell) (b : Board) : Prop where
  composed : ∀ b', b.Redrawn b' → ∀ c id e, (c, id) ∈ b'.index .tile → b'.entity? id = some e →
    FailsBy P (b'.composed d.book e)
  sorted : ∀ b', b.Redrawn b' → FailsBy P (b'.sorted b'.indexed)
  key : FailsBy P cell.checkKey
  around : ∀ o ∈ d.offsets, FailsBy P (cell + o).checkKey

theorem Desk.reads_oversize (d : Desk) (cell : Cell) (b : Board) :
    d.Reads Fault.IsOversize cell b where
  composed _ redrawn _ _ e _ _ := redrawn.sound.composed_failsBy d.book e
  sorted _ redrawn := redrawn.sound.sorted_failsBy fun _ c _ _ => c.depth_failsBy
  key := cell.checkKey_failsBy
  around o _ := (cell + o).checkKey_failsBy

variable {P : Fault → Prop}

def Redraws {α : Type} (P : Fault → Prop) (b : Board) (x : Edit α) (s : Studio) : Prop :=
  Ends x s (fun _ t => b.Redrawn t.board) (fun fault t => P fault ∧ b.Redrawn t.board)

theorem Redraws.bind {α β : Type} {b : Board} {x : Edit β} {f : β → Edit α} {s : Studio}
    (hx : Redraws P b x s) (hf : ∀ a t, b.Redrawn t.board → Redraws P b (f a) t) :
    Redraws P b (x >>= f) s :=
  Ends.bind hx hf

theorem redraws_pure {α : Type} {b : Board} {s : Studio} (h : b.Redrawn s.board) (a : α) :
    Redraws P b (pure a) s :=
  (ends_pure a).mpr h

theorem Redraws.consult_bind {α β : Type} {b : Board} {s : Studio} {f : Board → Except Fault β}
    {g : β → Edit α} (h : b.Redrawn s.board) (fails : FailsBy P (f s.board))
    (hg : ∀ a, f s.board = .ok a → Redraws P b (g a) s) : Redraws P b (consult f >>= g) s :=
  ends_consult_bind.mpr ⟨hg, fun fault hf => ⟨fails fault hf, h⟩⟩

theorem Redraws.filterMapM {α β : Type} {b : Board} {f : α → Edit (Option β)} {xs : List α}
    (hf : ∀ x ∈ xs, ∀ s, b.Redrawn s.board → Redraws P b (f x) s) {s : Studio}
    (h : b.Redrawn s.board) : Redraws P b (xs.filterMapM f) s := by
  induction xs generalizing s with
  | nil => exact redraws_pure h []
  | cons x xs ih =>
    have rest : ∀ t, b.Redrawn t.board → Redraws P b (xs.filterMapM f) t := fun t ht =>
      ih (fun y hy => hf y (List.mem_cons_of_mem x hy)) ht
    rw [List.filterMapM_cons]
    refine (hf x List.mem_cons_self s h).bind fun y t ht => ?_
    cases y with
    | none => exact rest t ht
    | some y => exact (rest t ht).bind fun _ _ hu => redraws_pure hu _

namespace Desk

variable {d : Desk} {s : Studio} {b : Board} {cell : Cell} {layer : Layer}

theorem discard_board {failed : Fault → Studio → Prop}
    (published : ∀ event u, Ends (d.publish event) u (fun _ t => t.board = u.board) failed)
    (id : EntityId) (hs : s.board = b.vacate layer cell) :
    Ends (d.discard id) s (fun _ t => t.board = b.withdrawn layer cell id) failed := by
  refine (discard_ends hs rfl fun event u hu => ?_).mono (fun _ t ht => ?_) fun _ _ hf => hf
  · exact (published event u).mono (fun _ _ ht => (ht.trans hu).symm) fun _ _ hf => hf
  · obtain ⟨b', moved, ht⟩ := ht
    rw [ht, ← moved]
    rfl

section Silently

variable (silent : Silent d.hear)
include silent

theorem publish_silent {failed : Fault → Studio → Prop} (event : Event) (s : Studio) :
    Ends (d.publish event) s (fun _ t => t.board = s.board) failed := by
  unfold publish
  rw [ends_bind, ends_record]
  obtain ⟨t, run, ht⟩ := silent event { s with events := s.events ++ [event] }
  exact (ends_iff_of_ok run).mpr ht

theorem publish_redraws (event : Event) (h : b.Redrawn s.board) :
    Redraws P b (d.publish event) s :=
  (publish_silent silent event s).mono (fun _ _ ht => ht ▸ h) fun _ _ hf => hf

section Reading

variable (reads : d.Reads P cell b)
include reads

theorem refreshAs_redraws (named : Datum) {c : Cell} {id : EntityId} (h : b.Redrawn s.board)
    (hi : (c, id) ∈ s.board.index .tile) : Redraws P b (d.refreshAs named id) s := by
  obtain ⟨e, he, _, hl, _⟩ := h.sound.stands _ c id hi
  refine (ends_consult_bind_of_ok (Board.tile_of_entity? he hl)).mpr ?_
  refine Redraws.consult_bind h (reads.composed _ h c id e hi he) fun fragments _ => ?_
  by_cases same : e.fragments = fragments
  · rw [if_pos same]
    exact redraws_pure h _
  · rw [if_neg same]
    refine ends_alter_bind.mpr ?_
    have redrawn : b.Redrawn (s.board.setFragments id fragments) :=
      h.trans ⟨h.sound.setFragments id fragments, s.board.index_setFragments id fragments⟩
    exact (publish_redraws silent _ redrawn).bind fun _ _ ht => redraws_pure ht _

theorem refreshAt_redraws {o : Cell} (ho : o ∈ d.offsets) (h : b.Redrawn s.board) :
    Redraws P b (d.refreshAt (cell + o)) s := by
  refine Redraws.consult_bind h (s.board.idAt_failsBy .tile (reads.around o ho)) fun found hf => ?_
  cases found with
  | none => exact redraws_pure h _
  | some id =>
    have here := h.sound.find?_eq_some_iff.mp (Board.idAt_eq_ok hf).2
    refine (refreshAs_redraws silent reads (.int id) h here).bind fun changed t ht => ?_
    cases changed with
    | false => exact redraws_pure ht _
    | true => exact redraws_pure ht _

theorem cascade_redraws (h : b.Redrawn s.board) : Redraws P b (d.cascade cell) s := by
  have all : Redraws P b (d.offsets.filterMapM fun o => d.refreshAt (cell + o)) s :=
    Redraws.filterMapM (fun _ ho t ht => refreshAt_redraws silent reads ho ht) h
  refine all.bind fun changed t ht => ?_
  refine Redraws.consult_bind ht reads.key fun _ _ => ?_
  exact (ends_bind _ _).mpr ((ends_note _).mpr ((ends_pure _).mpr ht))

theorem repaint_redraws (h : b.Redrawn s.board) : Redraws P b d.repaint s := by
  refine Redraws.consult_bind h (reads.sorted _ h) fun order ho => ends_alter_bind.mpr ?_
  have painted : b.Redrawn (s.board.setOrder order) :=
    h.trans ⟨(h.sound.advance_sorted ho).sound, s.board.index_setOrder order⟩
  exact publish_redraws silent _ painted

end Reading

theorem refuse_silent {failed : Fault → Studio → Prop} (layer : Layer) (cell : Cell)
    (reason : Refusal) :
    Ends (d.refuse layer cell reason) s (fun _ t => t.board = s.board) failed :=
  refuse_ends fun event u hu => hu ▸ publish_silent silent event u

/-- An addition does nothing where the cell cannot be looked up or is taken. Elsewhere the new
entity is indexed, and from then on the addition fails only as its readings do. -/
theorem add_ends_of_reads (hs : s.board.Sound) {type : String} (named : type ≠ "")
    (reads : s.board.blocks layer cell = false →
      d.Reads P cell (s.board.insert layer cell type)) :
    Ends (d.add layer cell type) s
      (fun found t =>
        (s.board.blocks layer cell = true ∧ found = none ∧ t.board = s.board) ∨
        (s.board.blocks layer cell = false ∧ found = some s.board.nextId ∧
          (s.board.insert layer cell type).Redrawn t.board))
      (fun fault t =>
        (¬cell.Keyed ∧ t = s) ∨
        (cell.Keyed ∧ s.board.blocks layer cell = false ∧ P fault ∧
          (s.board.insert layer cell type).Redrawn t.board)) := by
  refine ends_consult_bind.mpr ⟨fun _ hk => ?_, fun fault hf => ?_⟩
  · have keyed := Cell.checkKey_eq_ok hk
    rw [ends_bind, ends_consult_ok]
    by_cases hb : s.board.blocks layer cell = true
    · rw [if_pos hb]
      refine Ends.bind (refuse_silent silent layer cell .occupied) fun _ t ht => ?_
      exact (ends_pure _).mpr (Or.inl ⟨hb, rfl, ht⟩)
    · have free := Board.find?_eq_none_of_blocks hb
      have inserted := Board.Redrawn.refl (hs.insert free keyed named)
      have reads := reads (by simpa using hb)
      rw [if_neg hb, ends_bind, ends_consult_ok, ends_bind, ends_alter]
      -- from here on nothing is undone: whichever step fails, the board has the newcomer
      refine Ends.mono (?_ : Ends _ _
        (fun found t => found = some s.board.nextId ∧
          (s.board.insert layer cell type).Redrawn t.board)
        (fun fault t => P fault ∧ (s.board.insert layer cell type).Redrawn t.board))
        (fun _ _ h => Or.inr ⟨by simpa using hb, h⟩)
        fun _ _ h => Or.inr ⟨keyed, by simpa using hb, h⟩
      cases layer with
      | tile =>
        have here : (cell, s.board.nextId) ∈ (s.board.insert .tile cell type).index .tile :=
          Board.mem_index_insert.mpr (Or.inr ⟨rfl, rfl, rfl⟩)
        refine Ends.bind (refreshAs_redraws silent reads _ inserted here) fun _ t ht => ?_
        refine Ends.bind (repaint_redraws silent reads ht) fun _ t ht => ?_
        refine Ends.bind (cascade_redraws silent reads ht) fun _ t ht => ?_
        exact Ends.bind (publish_redraws silent _ ht) fun _ t ht => (ends_pure _).mpr ⟨rfl, ht⟩
      | object =>
        refine Ends.bind (repaint_redraws silent reads inserted) fun _ t ht => ?_
        exact Ends.bind (publish_redraws silent _ ht) fun _ t ht => (ends_pure _).mpr ⟨rfl, ht⟩
  · refine Or.inl ⟨fun keyed => ?_, rfl⟩
    rw [Cell.checkKey, if_pos keyed] at hf
    cases hf

theorem add_ends (hs : s.board.Sound) {type : String} (named : type ≠ "") :
    Ends (d.add layer cell type) s
      (fun found t =>
        (s.board.blocks layer cell = true ∧ found = none ∧ t.board = s.board) ∨
        (s.board.blocks layer cell = false ∧ found = some s.board.nextId ∧
          (s.board.insert layer cell type).Redrawn t.board))
      (fun fault t =>
        (¬cell.Keyed ∧ t = s) ∨
        (cell.Keyed ∧ s.board.blocks layer cell = false ∧ fault.IsOversize ∧
          (s.board.insert layer cell type).Redrawn t.board)) :=
  add_ends_of_reads silent hs named fun _ => d.reads_oversize cell _

/-- A removal does nothing where the cell cannot be looked up or is empty. Elsewhere the entity is
gone, and from then on only the removal of a tile may fail, as its readings do. -/
theorem remove_ends_of_reads (hs : s.board.Sound) (layer : Layer) (cell : Cell)
    (reads : ∀ id, s.board.find? layer cell = some id →
      d.Reads P cell (s.board.withdrawn layer cell id)) :
    Ends (d.remove layer cell) s
      (fun removed t =>
        (s.board.find? layer cell = none ∧ removed = false ∧ t.board = s.board) ∨
        ∃ id, s.board.find? layer cell = some id ∧ removed = true ∧
          (s.board.withdrawn layer cell id).Redrawn t.board)
      (fun fault t =>
        (¬cell.Keyed ∧ t = s) ∨
        (cell.Keyed ∧ layer = .tile ∧ ∃ id, s.board.find? layer cell = some id ∧
          P fault ∧ (s.board.withdrawn layer cell id).Redrawn t.board)) := by
  refine ends_consult_bind.mpr ⟨fun found hf => ?_, fun fault hf => ?_⟩
  · obtain ⟨keyed, hf⟩ := Board.idAt_eq_ok hf
    cases found with
    | none =>
      refine Ends.bind (refuse_silent silent layer cell .empty) fun _ t ht => ?_
      exact (ends_pure _).mpr (Or.inl ⟨hf, rfl, ht⟩)
    | some id =>
      obtain ⟨e, he, _⟩ := hs.entity?_of_find? hf
      have known : (s.board.vacate layer cell).entity id = .ok e :=
        Board.entity_of_entity? (by rwa [Board.entity?_vacate])
      refine ends_alter_bind.mpr ((ends_consult_bind_of_ok known).mpr ?_)
      refine Ends.bind (discard_board (publish_silent silent) id rfl) fun _ t ht => ?_
      have withdrawn : (s.board.withdrawn layer cell id).Redrawn t.board := by
        rw [ht]
        exact Board.Redrawn.refl (hs.withdrawn hf)
      cases layer with
      | tile =>
        refine Ends.bind ((cascade_redraws silent (reads id hf) withdrawn).mono (fun _ _ h => h)
          fun _ _ h => Or.inr ⟨keyed, rfl, id, hf, h⟩) fun _ u hu => ?_
        refine Ends.bind (publish_silent silent _ u) fun _ v hv => ?_
        exact (ends_pure _).mpr (Or.inr ⟨id, hf, rfl, hv ▸ hu⟩)
      | object =>
        refine Ends.bind (publish_silent silent _ t) fun _ u hu => ?_
        exact (ends_pure _).mpr (Or.inr ⟨id, hf, rfl, hu ▸ withdrawn⟩)
  · refine Or.inl ⟨fun keyed => ?_, rfl⟩
    rw [Board.idAt_of_keyed _ _ keyed] at hf
    cases hf

theorem remove_ends (hs : s.board.Sound) (layer : Layer) (cell : Cell) :
    Ends (d.remove layer cell) s
      (fun removed t =>
        (s.board.find? layer cell = none ∧ removed = false ∧ t.board = s.board) ∨
        ∃ id, s.board.find? layer cell = some id ∧ removed = true ∧
          (s.board.withdrawn layer cell id).Redrawn t.board)
      (fun fault t =>
        (¬cell.Keyed ∧ t = s) ∨
        (cell.Keyed ∧ layer = .tile ∧ ∃ id, s.board.find? layer cell = some id ∧
          fault.IsOversize ∧ (s.board.withdrawn layer cell id).Redrawn t.board)) :=
  remove_ends_of_reads silent hs layer cell fun _ _ => d.reads_oversize cell _

end Silently

end Desk

end Autotile
