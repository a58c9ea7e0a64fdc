import Autotile.Proofs.Studio.Refinement

/-! # What edits publish

Where nobody else moves the board or publishes news of it, what an edit publishes accounts for what
it does: every tile that is composed to other fragments than it had is told of, in the order in
which tiles are composed, and so is a new painting order, an arrival and a departure. -/
namespace Autotile

open Edit

/-- Whoever hears of an edit may publish in turn, but no news. -/
def Discreet (news : Event → Bool) (hear : Event → Edit Unit) : Prop :=
  ∀ event s, ∃ own, (after (hear event) s).events = s.events ++ own ∧ own.filter news = []

theorem discreet_nobody (news : Event → Bool) : Discreet news fun _ => pure () :=
  fun _ s => ⟨[], (List.append_nil s.events).symm, rfl⟩

/-- As far as news go, what was published between two states is a list of events. -/
def Published (news : Event → Bool) (s t : Studio) (events : List Event) : Prop :=
  ∃ told, t.events = s.events ++ told ∧ told.filter news = events.filter news

namespace Published

variable {news : Event → Bool} {s t u : Studio} {events later : List Event}

theorem nothing (h : t.events = s.events) : Published news s t [] :=
  ⟨[], h.trans (List.append_nil s.events).symm, rfl⟩

theorem congr (h : Published news s t events) {events' : List Event}
    (same : events.filter news = events'.filter news) : Published news s t events' := by
  obtain ⟨told, ht, told_same⟩ := h
  exact ⟨told, ht, told_same.trans same⟩

theorem trans (h : Published news s t events) (h' : Published news t u later) :
    Published news s u (events ++ later) := by
  obtain ⟨told, ht, same⟩ := h
  obtain ⟨more, hu, same'⟩ := h'
  refine ⟨told ++ more, ?_, ?_⟩
  · rw [hu, ht, List.append_assoc]
  · rw [List.filter_append, List.filter_append, same, same']

end Published

structure Recomposition where
  id : EntityId
  cell : Cell
  fragments : List Fragment
  named : Datum

namespace Recomposition

def event (r : Recomposition) : Event := .recomposed r.id r.cell r.fragments r.named

def Plain (r : Recomposition) : Prop := r.named = .int r.id

end Recomposition

namespace Board

/-- Tiles are composed anew one after another, each to other fragments than it had. -/
inductive Recomposed (book : Rulebook) : Board → List Recomposition → Board → Prop
  | nil (b : Board) : Recomposed book b [] b
  | cons {b b' : Board} {id : EntityId} {e : Entity} {fragments : List Fragment} {named : Datum}
      {rest : List Recomposition} (known : b.entity? id = some e) (onTile : e.layer = .tile)
      (composed : b.composed book e = .ok fragments) (changed : e.fragments ≠ fragments)
      (later : Recomposed book (b.setFragments id fragments) rest b') :
      Recomposed book b (⟨id, e.cell, fragments, named⟩ :: rest) b'

namespace Recomposed

variable {book : Rulebook} {b b' c : Board} {rs rs' : List Recomposition} {id : EntityId}

theorem redraws (h : Recomposed book b rs b') : Redraws book b b' := by
  induction h with
  | nil b => exact .refl
  | cons known onTile composed _ _ ih => exact .head (.tile known onTile composed) ih

theorem append (h : Recomposed book b rs b') (h' : Recomposed book b' rs' c) :
    Recomposed book b (rs ++ rs') c := by
  induction h with
  | nil => exact h'
  | cons known onTile composed changed _ ih => exact .cons known onTile composed changed (ih h')

theorem of_append {rs rs' : List Recomposition} (h : Recomposed book b (rs ++ rs') c) :
    ∃ b', Recomposed book b rs b' ∧ Recomposed book b' rs' c := by
  induction rs generalizing b with
  | nil => exact ⟨b, .nil b, h⟩
  | cons r rs ih =>
    cases h with
    | cons known onTile composed changed later =>
      obtain ⟨b', first, second⟩ := ih later
      exact ⟨b', .cons known onTile composed changed first, second⟩

theorem setOrder (h : Recomposed book b rs b') (order : List EntityId) :
    Recomposed book (b.setOrder order) rs (b'.setOrder order) := by
  induction h with
  | nil b => exact .nil _
  | @cons b b' id e fragments named rest known onTile composed changed later ih =>
    exact .cons (b := b.setOrder order) known onTile composed changed ih

theorem entity?_of_notMem (h : Recomposed book b rs b') (apart : id ∉ rs.map (·.id)) :
    b'.entity? id = b.entity? id := by
  induction h with
  | nil => rfl
  | @cons b b' other e fragments named rest known onTile composed changed later ih =>
    simp only [List.map_cons, List.mem_cons, not_or] at apart
    rw [ih apart.2, entity?_setFragments]
    cases b.entity? id with
    | none => rfl
    | some e => rw [Option.map_some, if_neg apart.1]

theorem cell_of_mem (h : Recomposed book b rs b') {r : Recomposition} (hr : r ∈ rs) :
    ∃ e, b.entity? r.id = some e ∧ e.cell = r.cell ∧ e.layer = .tile := by
  induction h with
  | nil => cases hr
  | @cons b b' id e fragments named rest known onTile composed changed later ih =>
    rcases List.mem_cons.mp hr with rfl | hr
    · exact ⟨e, known, rfl, onTile⟩
    · obtain ⟨e', known', hc, hl⟩ := ih hr
      rw [entity?_setFragments, Option.map_eq_some_iff] at known'
      obtain ⟨old, hold, rfl⟩ := known'
      by_cases here : r.id = id
      · simp only [here, if_true] at hc hl hold ⊢
        exact ⟨old, hold, hc, hl⟩
      · simp only [here, if_false] at hc hl
        exact ⟨old, hold, hc, hl⟩

theorem entity?_of_mem (h : Recomposed book b rs b') (once : (rs.map (·.id)).Nodup)
    {r : Recomposition} (hr : r ∈ rs) : ∃ e, b.entity? r.id = some e ∧
      e.fragments ≠ r.fragments ∧ b'.entity? r.id = some { e with fragments := r.fragments } := by
  induction h with
  | nil => cases hr
  | @cons b b' id e fragments named rest known onTile composed changed later ih =>
    obtain ⟨notLater, once⟩ := List.nodup_cons.mp once
    rcases List.mem_cons.mp hr with rfl | hr
    · refine ⟨e, known, changed, ?_⟩
      rw [later.entity?_of_notMem notLater, entity?_setFragments, known, Option.map_some,
        if_pos rfl]
    · have apart : r.id ≠ id := fun same => notLater (List.mem_map.mpr ⟨r, hr, same⟩)
      obtain ⟨e', known', changed', final⟩ := ih once hr
      rw [entity?_setFragments, Option.map_eq_some_iff] at known'
      obtain ⟨old, hold, rfl⟩ := known'
      rw [if_neg apart] at changed' final
      exact ⟨old, hold, changed', final⟩

theorem ids_once (h : Recomposed book b rs b') (once : (rs.map (·.cell)).Nodup) :
    (rs.map (·.id)).Nodup := by
  apply List.pairwise_map.mpr
  refine (List.pairwise_map.mp once).imp_of_mem ?_
  intro r r' hr hr' apart same
  obtain ⟨e, known, cell, _⟩ := h.cell_of_mem hr
  obtain ⟨e', known', cell', _⟩ := h.cell_of_mem hr'
  rw [same, known'] at known
  obtain rfl := Option.some.inj known
  exact apart (cell.symm.trans cell')

end Recomposed

end Board

structure Told (news : Event → Bool) (book : Rulebook) (s t : Studio)
    (rs : List Recomposition) : Prop where
  recomposed : s.board.Recomposed book rs t.board
  published : Published news s t (rs.map Recomposition.event)

namespace Told

variable {news : Event → Bool} {book : Rulebook} {s t u : Studio} {rs rs' : List Recomposition}

theorem refl (s : Studio) : Told news book s s [] := ⟨.nil _, .nothing rfl⟩

theorem trans (h : Told news book s t rs) (h' : Told news book t u rs') :
    Told news book s u (rs ++ rs') where
  recomposed := h.recomposed.append h'.recomposed
  published := List.map_append ▸ h.published.trans h'.published

end Told

/-- An arrival, as it is told: the new tile's fragments if it has any, the painting order, the tiles
around it that changed, and the arrival. -/
structure Arrival (news : Event → Bool) (d : Desk) (layer : Layer) (cell : Cell) (type : String)
    (s t : Studio) (order : List EntityId) (own around : List Recomposition) : Prop where
  free : s.board.blocks layer cell = false
  keyed : cell.Keyed
  sorted : s.board.ArrivalOrder layer cell type order
  recomposed : (s.board.arrived layer cell type order).Recomposed d.book (own ++ around) t.board
  here : (own.map (·.cell)).Sublist [cell]
  there : (around.map (·.cell)).Sublist (d.offsets.map (cell + ·))
  plain : ∀ r ∈ own ++ around, r.Plain
  bare : layer = .object → own ++ around = []
  published : Published news s t (own.map Recomposition.event ++ [.reordered order] ++
    around.map Recomposition.event ++ [.added layer s.board.nextId cell type])

/-- A departure, as it is told: the painting order if the entity was painted, the tiles around it
that changed, and the departure. -/
structure Departure (news : Event → Bool) (d : Desk) (layer : Layer) (cell : Cell) (s t : Studio)
    (id : EntityId) (e : Entity) (around : List Recomposition) : Prop where
  found : s.board.find? layer cell = some id
  known : s.board.entity? id = some e
  recomposed : (s.board.withdrawn layer cell id).Recomposed d.book around t.board
  there : (around.map (·.cell)).Sublist (d.offsets.map (cell + ·))
  plain : ∀ r ∈ around, r.Plain
  bare : layer = .object → around = []
  published : Published news s t
    ((if id ∈ s.board.paintOrder then [.reordered (s.board.paintOrder.erase id)] else []) ++
      around.map Recomposition.event ++ [.removed layer id cell e.type])

namespace Desk

variable {d : Desk} {s : Studio} {layer : Layer} {cell : Cell} {id : EntityId}
  {news : Event → Bool}

section Quietly

variable (quiet : Quiet d.hear) (discreet : Discreet news d.hear)
include quiet discreet

theorem publish_told (event : Event) :
    Ends (d.publish event) s (fun _ t => t.board = s.board ∧ Published news s t [event])
      fun _ _ => True := by
  refine (ends_bind _ _).mpr ((ends_record _).mpr ?_)
  have heard := ends_after (P := fun t => t.board = s.board ∧ Published news s t [event])
    (x := d.hear event) (s := { s with events := s.events ++ [event] }) |>.mpr ?_
  · exact heard.mono (fun _ _ ht => ht) fun _ _ _ => trivial
  · obtain ⟨own, ht, silent⟩ := discreet event { s with events := s.events ++ [event] }
    refine ⟨quiet event _, [event] ++ own, ?_, ?_⟩
    · rw [ht, List.append_assoc]
    · rw [List.filter_append, silent, List.append_nil]

theorem refreshAs_told (named : Datum) (id : EntityId) :
    Ends (d.refreshAs named id) s
      (fun _ t => ∃ e rs, s.board.entity? id = some e ∧ Told news d.book s t rs ∧
        (rs.map (·.cell)).Sublist [e.cell] ∧ ∀ r ∈ rs, r.id = id ∧ r.named = named)
      fun _ _ => True := by
  refine ends_consult_bind.mpr ⟨fun e he => ?_, fun _ _ => trivial⟩
  obtain ⟨known, onTile⟩ := Board.tile_eq_ok he
  refine ends_consult_bind.mpr ⟨fun fragments hf => ?_, fun _ _ => trivial⟩
  by_cases same : e.fragments = fragments
  · rw [if_pos same, ends_pure]
    exact ⟨e, [], known, .refl s, List.nil_sublist _, List.forall_mem_nil _⟩
  · rw [if_neg same]
    refine ends_alter_bind.mpr (Ends.bind (publish_told quiet discreet _) ?_)
    rintro _ t ⟨still, published⟩
    apply (ends_pure _).mpr
    refine ⟨e, [⟨id, e.cell, fragments, named⟩], known, ⟨?_, published⟩, .refl _, ?_⟩
    · exact .cons known onTile hf same (still ▸ .nil _)
    · intro r hr
      obtain rfl := List.mem_singleton.mp hr
      exact ⟨rfl, rfl⟩

theorem refreshAt_told (sound : s.board.Sound) (cell : Cell) :
    Ends (d.refreshAt cell) s
      (fun _ t => ∃ rs, Told news d.book s t rs ∧ (rs.map (·.cell)).Sublist [cell] ∧
        ∀ r ∈ rs, r.Plain)
      fun _ _ => True := by
  refine ends_consult_bind.mpr ⟨fun found hf => ?_, fun _ _ => trivial⟩
  obtain ⟨_, hf⟩ := Board.idAt_eq_ok hf
  cases found with
  | none => exact (ends_pure _).mpr ⟨[], .refl s, List.nil_sublist _, List.forall_mem_nil _⟩
  | some id =>
    refine Ends.bind (refreshAs_told quiet discreet (.int id) id) ?_
    rintro changed t ⟨e, rs, known, told, cells, named⟩
    obtain ⟨e', known', rfl, _⟩ := sound.entity?_of_find? hf
    obtain rfl := Option.some.inj (known.symm.trans known')
    have plain : ∀ r ∈ rs, r.Plain := by
      intro r hr
      obtain ⟨rfl, hn⟩ := named r hr
      exact hn
    cases changed with
    | false => exact (ends_pure _).mpr ⟨rs, told, cells, plain⟩
    | true => exact (ends_pure _).mpr ⟨rs, told, cells, plain⟩

private theorem refreshAll_told (offsets : List Cell) (sound : s.board.Sound) :
    Ends (offsets.filterMapM fun o => d.refreshAt (cell + o)) s
      (fun _ t => ∃ rs, Told news d.book s t rs ∧
        (rs.map (·.cell)).Sublist (offsets.map (cell + ·)) ∧ ∀ r ∈ rs, r.Plain)
      fun _ _ => True := by
  induction offsets generalizing s with
  | nil => exact (ends_pure _).mpr ⟨[], .refl s, .refl _, List.forall_mem_nil _⟩
  | cons o offsets ih =>
    rw [List.filterMapM_cons]
    refine Ends.bind (refreshAt_told quiet discreet sound (cell + o)) ?_
    rintro changed t ⟨rs, told, cells, plain⟩
    have rest := ih (told.recomposed.redraws.moves.sound sound)
    have all : ∀ u, (∃ rs, Told news d.book t u rs ∧
        (rs.map (·.cell)).Sublist (offsets.map (cell + ·)) ∧ ∀ r ∈ rs, r.Plain) →
        ∃ rs, Told news d.book s u rs ∧
          (rs.map (·.cell)).Sublist ((o :: offsets).map (cell + ·)) ∧ ∀ r ∈ rs, r.Plain := by
      rintro u ⟨rs', told', cells', plain'⟩
      refine ⟨rs ++ rs', told.trans told', ?_, List.forall_mem_append.mpr ⟨plain, plain'⟩⟩
      rw [List.map_append]
      exact cells.append cells'
    cases changed with
    | none => exact rest.mono (fun _ u hu => all u hu) fun _ _ h => h
    | some id => exact Ends.bind rest fun _ u hu => (ends_pure _).mpr (all u hu)

theorem cascade_told (sound : s.board.Sound) (cell : Cell) :
    Ends (d.cascade cell) s
      (fun _ t => ∃ rs, Told news d.book s t rs ∧
        (rs.map (·.cell)).Sublist (d.offsets.map (cell + ·)) ∧ ∀ r ∈ rs, r.Plain)
      fun _ _ => True := by
  refine Ends.bind (refreshAll_told quiet discreet d.offsets sound) fun changed t ht => ?_
  refine ends_consult_bind.mpr ⟨fun _ _ => ?_, fun _ _ => trivial⟩
  rw [ends_bind, ends_note, ends_pure]
  obtain ⟨rs, told, cells, plain⟩ := ht
  exact ⟨rs, ⟨told.recomposed, told.published⟩, cells, plain⟩

theorem repaint_told :
    Ends d.repaint s
      (fun _ t => ∃ order, s.board.sorted s.board.indexed = .ok order ∧
        t.board = s.board.setOrder order ∧ Published news s t [.reordered order])
      fun _ _ => True := by
  refine ends_consult_bind.mpr ⟨fun order ho => ends_alter_bind.mpr ?_, fun _ _ => trivial⟩
  refine (publish_told quiet discreet _).mono ?_ fun _ _ h => h
  rintro _ t ⟨still, published⟩
  exact ⟨order, ho, still, published⟩

theorem refuse_told (reason : Refusal) :
    Ends (d.refuse layer cell reason) s
      (fun _ t => t.board = s.board ∧ Published news s t [.refused layer cell reason])
      fun _ _ => True := by
  obtain ⟨notice, run⟩ := d.refuse_run s layer cell reason
  have published := publish_told (s := { s with notices := s.notices ++ [notice] }) quiet discreet
    (.refused layer cell reason)
  exact ⟨fun ok => published.of_ok (run.symm.trans ok), fun _ => trivial⟩

theorem add_told (sound : s.board.Sound) (layer : Layer) (cell : Cell) {type : String}
    (named : type ≠ "") :
    Ends (d.add layer cell type) s
      (fun found t =>
        (s.board.blocks layer cell = true ∧ found = none ∧ t.board = s.board ∧
          Published news s t [.refused layer cell .occupied]) ∨
        (found = some s.board.nextId ∧
          ∃ order own around, Arrival news d layer cell type s t order own around))
      fun _ _ => True := by
  refine ends_consult_bind.mpr ⟨fun _ hk => ?_, fun _ _ => trivial⟩
  have keyed := Cell.checkKey_eq_ok hk
  rw [ends_bind, ends_consult_ok]
  cases blocked : s.board.blocks layer cell with
  | true =>
    rw [if_pos rfl]
    refine Ends.bind (refuse_told quiet discreet .occupied) fun _ t ht => ?_
    exact (ends_pure _).mpr (Or.inl ⟨rfl, rfl, ht⟩)
  | false =>
    have unoccupied := Board.find?_eq_none_of_blocks (Bool.not_eq_true _ ▸ blocked)
    have inserted := sound.insert unoccupied keyed named
    rw [if_neg Bool.false_ne_true, ends_bind, ends_consult_ok, ends_bind, ends_alter]
    cases layer with
    | tile =>
      refine Ends.bind (refreshAs_told quiet discreet _ _) ?_
      rintro _ t ⟨e, own, known, ⟨composed, told⟩, here, plain⟩
      have known' := Board.entity?_insert sound.next_unused .tile cell type s.board.nextId
      rw [if_pos rfl] at known'
      obtain rfl := Option.some.inj (known.symm.trans known')
      refine Ends.bind (repaint_told quiet discreet) ?_
      rintro _ u ⟨order, sorted, painted, ordered⟩
      -- the newcomer was composed before the order was made, which does not look at fragments:
      -- so the board is as if it had been put into the order first
      have arrived : (s.board.arrived .tile cell type order).Recomposed d.book own u.board :=
        painted ▸ composed.setOrder order
      have order_of : s.board.ArrivalOrder .tile cell type order :=
        composed.redraws.sorted_indexed.symm.trans sorted
      have soundly := arrived.redraws.moves.sound (sound.arrived blocked keyed named order_of)
      refine Ends.bind (cascade_told quiet discreet soundly cell) ?_
      rintro _ v ⟨around, cascaded, there, plainly⟩
      refine Ends.bind (publish_told quiet discreet _) ?_
      rintro _ w ⟨still, published⟩
      apply (ends_pure _).mpr
      refine Or.inr
        ⟨rfl, order, own, around, blocked, keyed, order_of, ?_, here, there, ?_, nofun, ?_⟩
      · exact still ▸ arrived.append cascaded.recomposed
      · refine List.forall_mem_append.mpr ⟨fun r hr => ?_, plainly⟩
        obtain ⟨number, name⟩ := plain r hr
        rw [Recomposition.Plain, number]
        exact name
      · exact ((told.trans ordered).trans cascaded.published).trans published
    | object =>
      refine Ends.bind (repaint_told quiet discreet) ?_
      rintro _ t ⟨order, sorted, painted, ordered⟩
      refine Ends.bind (publish_told quiet discreet _) ?_
      rintro _ u ⟨still, published⟩
      apply (ends_pure _).mpr
      refine Or.inr ⟨rfl, order, [], [], blocked, keyed, sorted, ?_, List.nil_sublist _,
        List.nil_sublist _, List.forall_mem_nil _, fun _ => rfl, ordered.trans published⟩
      rw [still, painted]
      exact .nil _

theorem discard_told (id : EntityId) :
    Ends (d.discard id) s
      (fun _ t => t.board = (s.board.setOrder (s.board.paintOrder.erase id)).delete id ∧
        Published news s t
          (if id ∈ s.board.paintOrder then [.reordered (s.board.paintOrder.erase id)] else []))
      fun _ _ => True := by
  unfold discard
  rw [ends_bind, ends_consult_ok]
  by_cases painted : id ∈ s.board.paintOrder
  · rw [if_pos (List.contains_iff_mem.mpr painted), if_pos painted, ends_bind, ends_alter]
    refine Ends.bind (publish_told quiet discreet _) ?_
    rintro _ t ⟨still, published⟩
    apply (ends_alter _).mpr
    exact ⟨congrArg (Board.delete · id) still, published⟩
  · rw [if_neg fun no => painted (List.contains_iff_mem.mp no), if_neg painted]
    apply (ends_alter _).mpr
    rw [List.erase_of_not_mem painted]
    exact ⟨rfl, .nothing rfl⟩

theorem remove_told (sound : s.board.Sound) (layer : Layer) (cell : Cell) :
    Ends (d.remove layer cell) s
      (fun removed t =>
        (s.board.find? layer cell = none ∧ removed = false ∧ t.board = s.board ∧
          Published news s t [.refused layer cell .empty]) ∨
        (removed = true ∧ ∃ id e around, Departure news d layer cell s t id e around))
      fun _ _ => True := by
  refine ends_consult_bind.mpr ⟨fun found hf => ?_, fun _ _ => trivial⟩
  obtain ⟨_, hf⟩ := Board.idAt_eq_ok hf
  cases found with
  | none =>
    refine Ends.bind (refuse_told quiet discreet .empty) fun _ t ht => ?_
    exact (ends_pure _).mpr (Or.inl ⟨hf, rfl, ht⟩)
  | some id =>
    refine ends_alter_bind.mpr (ends_consult_bind.mpr ⟨fun e he => ?_, fun _ _ => trivial⟩)
    have known : s.board.entity? id = some e :=
      (Board.entity?_vacate s.board layer cell id).symm.trans (Board.entity_eq_ok he)
    have order : (s.board.vacate layer cell).paintOrder = s.board.paintOrder := by
      cases layer <;> rfl
    refine Ends.bind (discard_told quiet discreet id) ?_
    rintro _ t ⟨left, struck⟩
    simp only [order] at left struck
    have withdrawn : t.board = s.board.withdrawn layer cell id := left
    have soundly : t.board.Sound := withdrawn ▸ sound.withdrawn hf
    cases layer with
    | tile =>
      -- only a tile that leaves has those around it composed anew
      refine Ends.bind (cascade_told quiet discreet soundly cell) ?_
      rintro _ u ⟨around, cascaded, there, plain⟩
      refine Ends.bind (publish_told quiet discreet _) ?_
      rintro _ v ⟨still, published⟩
      apply (ends_pure _).mpr
      refine Or.inr ⟨rfl, id, e, around, hf, known, ?_, there, plain, nofun, ?_⟩
      · exact still ▸ withdrawn ▸ cascaded.recomposed
      · exact (struck.trans cascaded.published).trans published
    | object =>
      refine Ends.bind (publish_told quiet discreet _) ?_
      rintro _ u ⟨still, published⟩
      apply (ends_pure _).mpr
      refine Or.inr ⟨rfl, id, e, [], hf, known, ?_, List.nil_sublist _, List.forall_mem_nil _,
        fun _ => rfl, ?_⟩
      · rw [still, withdrawn]
        exact .nil _
      · exact (struck.trans (.nothing rfl)).trans published

theorem clear_told :
    Ends d.clear s (fun _ t => t.board = s.board.clear ∧ Published news s t [.cleared])
      fun _ _ => True :=
  ends_alter_bind.mpr (publish_told quiet discreet _)

end Quietly

end Desk

end Autotile
