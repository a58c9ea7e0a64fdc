import Autotile.Proofs.Studio.Painting
import Autotile.Proofs.Studio.Publications

/-! # A mirror of the map

A mirror knows nothing but what is published. It keeps what stands at each cell, the fragments last
told of each entity, and the painting order last told. What an edit publishes takes a mirror that
shows the map before the edit to one that shows it afterwards. -/
namespace Autotile

open Edit

structure Mirror where
  contents : Layer → Cell → Option (EntityId × String) := fun _ _ => none
  fragments : EntityId → List Fragment := fun _ => []
  order : List EntityId := []

def Event.tellsOfMap : Event → Bool
  | .added .. | .removed .. | .recomposed .. | .reordered _ | .cleared => true
  | _ => false

namespace Mirror

def set (m : Mirror) (layer : Layer) (cell : Cell) (found : Option (EntityId × String)) : Mirror :=
  { m with contents := fun l c => if l = layer ∧ c = cell then found else m.contents l c }

/-- Entities are known by their cells, fragments by the entity; the painting order is told whole. -/
def hear (m : Mirror) : Event → Mirror
  | .added layer id cell type => m.set layer cell (some (id, type))
  | .removed layer _ cell _ => m.set layer cell none
  | .recomposed id _ fragments _ =>
    { m with fragments := fun j => if j = id then fragments else m.fragments j }
  | .reordered order => { m with order }
  | .cleared => {}
  | _ => m

def hears (m : Mirror) (events : List Event) : Mirror := events.foldl hear m

variable {m : Mirror}

@[simp] theorem hears_nil (m : Mirror) : m.hears [] = m := rfl

@[simp] theorem hears_cons (m : Mirror) (event : Event) (events : List Event) :
    m.hears (event :: events) = (m.hear event).hears events := rfl

theorem hears_append (m : Mirror) (events later : List Event) :
    m.hears (events ++ later) = (m.hears events).hears later :=
  List.foldl_append

theorem hear_of_not_tellsOfMap {event : Event} (h : event.tellsOfMap = false) :
    m.hear event = m := by
  cases event <;> first | rfl | cases h

theorem hears_filter (m : Mirror) (events : List Event) :
    m.hears (events.filter Event.tellsOfMap) = m.hears events := by
  induction events generalizing m with
  | nil => rfl
  | cons event events ih =>
    cases tells : event.tellsOfMap with
    | true => rw [List.filter_cons_of_pos tells, hears_cons, hears_cons, ih]
    | false =>
      rw [List.filter_cons_of_neg (by simp [tells]), hears_cons, hear_of_not_tellsOfMap tells, ih]

theorem hears_congr {events events' : List Event}
    (same : events.filter Event.tellsOfMap = events'.filter Event.tellsOfMap) :
    m.hears events = m.hears events' := by
  rw [← hears_filter, same, hears_filter]

theorem hears_recompositions (m : Mirror) (rs : List Recomposition) :
    (m.hears (rs.map Recomposition.event)).contents = m.contents ∧
      (m.hears (rs.map Recomposition.event)).order = m.order := by
  induction rs generalizing m with
  | nil => exact ⟨rfl, rfl⟩
  | cons r rs ih => exact ih (m.hear r.event)

end Mirror

namespace Board

variable {book : Rulebook} {b b' : Board} {layer : Layer} {cell : Cell} {id : EntityId}

def holds (b : Board) (layer : Layer) (cell : Cell) : Option (EntityId × String) :=
  (b.find? layer cell).bind fun id => (b.type? layer cell).map fun type => (id, type)

theorem Redraws.holds (h : Redraws book b b') (layer : Layer) (cell : Cell) :
    b'.holds layer cell = b.holds layer cell := by
  have index : b'.index layer = b.index layer := by
    induction h with
    | refl => rfl
    | tail _ last ih => exact (last.index layer).trans ih
  unfold Board.holds find?
  rw [index, h.type?]

theorem Sound.holds_arrived (h : b.Sound) (free : b.blocks layer cell = false) {type : String}
    {order : List EntityId} (l : Layer) (c : Cell) :
    (b.arrived layer cell type order).holds l c =
      if l = layer ∧ c = cell then some (b.nextId, type) else b.holds l c := by
  have unoccupied := find?_eq_none_of_blocks (Bool.not_eq_true _ ▸ free)
  have found : (b.arrived layer cell type order).find? l c =
      if l = layer ∧ c = cell then some b.nextId else b.find? l c := by
    unfold Board.arrived
    rw [find?, index_setOrder, ← find?]
    by_cases hl : l = layer
    · subst hl
      rw [find?_insert]
      by_cases hc : c = cell
      · subst hc
        simp [unoccupied]
      · simp [hc]
    · rw [find?, index_insert_of_ne b hl, ← find?, if_neg fun here => hl here.1]
  unfold Board.holds
  rw [found, h.type?_arrived unoccupied]
  by_cases here : l = layer ∧ c = cell
  · simp only [if_pos here, Option.bind_some, Option.map_some]
  · simp only [if_neg here]

theorem Sound.holds_withdrawn (h : b.Sound) (found : b.find? layer cell = some id) (l : Layer)
    (c : Cell) : (b.withdrawn layer cell id).holds l c =
      if l = layer ∧ c = cell then none else b.holds l c := by
  have left : (b.withdrawn layer cell id).find? l c =
      if l = layer ∧ c = cell then none else b.find? l c := by
    unfold Board.withdrawn
    rw [find?, index_delete, index_setOrder, ← find?]
    by_cases here : l = layer ∧ c = cell
    · obtain ⟨rfl, rfl⟩ := here
      rw [if_pos ⟨rfl, rfl⟩, find?, index_vacate, lookup_filter_key fun k => decide (k ≠ c)]
      simp
    · rw [if_neg here, find?_vacate_of_ne b here]
  unfold Board.holds
  rw [left, h.type?_withdrawn found]
  by_cases here : l = layer ∧ c = cell
  · simp only [if_pos here, Option.bind_none]
  · simp only [if_neg here]

theorem holds_clear (b : Board) (layer : Layer) (cell : Cell) :
    b.clear.holds layer cell = none := by
  unfold holds
  rw [type?_clear]
  cases b.clear.find? layer cell <;> rfl

end Board

namespace Mirror

variable {m : Mirror} {book : Rulebook} {b b' : Board} {layer : Layer} {cell : Cell}

/-- A mirror knows how every entity looks. A number that was not given yet it has not heard of. -/
structure Looks (m : Mirror) (b : Board) : Prop where
  known : ∀ id e, b.entity? id = some e → m.fragments id = e.fragments
  unheard : ∀ id, b.nextId ≤ id → m.fragments id = []

theorem Looks.congr (h : m.Looks b) {m' : Mirror} (same : m'.fragments = m.fragments) :
    m'.Looks b := by
  constructor
  · rw [same]
    exact h.known
  · rw [same]
    exact h.unheard

theorem Looks.recomposed {rs : List Recomposition} (h : m.Looks b) (sound : b.Sound)
    (recomposed : b.Recomposed book rs b') :
    (m.hears (rs.map Recomposition.event)).Looks b' := by
  induction recomposed generalizing m with
  | nil b => exact h
  | @cons b b' id e fragments named rest known onTile composed changed later ih =>
    apply ih ?_ (sound.setFragments id fragments)
    constructor
    · intro j e' known'
      rw [Board.entity?_setFragments, Option.map_eq_some_iff] at known'
      obtain ⟨old, hold, rfl⟩ := known'
      by_cases here : j = id
      · simp [Recomposition.event, hear, here]
      · simp only [Recomposition.event, hear, if_neg here]
        exact h.known j old hold
    · intro j late
      have given := sound.numbered id e known
      change b.nextId ≤ j at late
      have apart : j ≠ id := Nat.ne_of_gt (Nat.lt_of_lt_of_le given late)
      simp only [Recomposition.event, hear, if_neg apart]
      exact h.unheard j late

theorem Looks.arrived (h : m.Looks b) (sound : b.Sound) {type : String} {order : List EntityId} :
    m.Looks (b.arrived layer cell type order) := by
  have next : (b.arrived layer cell type order).nextId = b.nextId + 1 := by
    cases layer <;> rfl
  constructor
  · intro id e known
    rw [Board.arrived, Board.entity?_setOrder, Board.entity?_insert sound.next_unused] at known
    by_cases new : id = b.nextId
    · rw [if_pos new] at known
      obtain rfl := Option.some.inj known
      exact h.unheard id (Nat.le_of_eq new.symm)
    · rw [if_neg new] at known
      exact h.known id e known
  · intro id late
    rw [next] at late
    exact h.unheard id (Nat.le_of_succ_le late)

theorem Looks.withdrawn (h : m.Looks b) {id : EntityId} :
    m.Looks (b.withdrawn layer cell id) := by
  have next : (b.withdrawn layer cell id).nextId = b.nextId := by
    cases layer <;> rfl
  constructor
  · intro j e known
    rw [Board.withdrawn, Board.entity?_delete, Board.entity?_setOrder,
      Board.entity?_vacate] at known
    by_cases left : j = id
    · rw [if_pos left] at known
      cases known
    · rw [if_neg left] at known
      exact h.known j e known
  · rw [next]
    exact h.unheard

/-- A mirror shows a map if it tells the same entities of both layers at the same cells, with the
same fragments, painted in the same order. -/
structure Shows (m : Mirror) (b : Board) : Prop where
  contents : ∀ layer cell, m.contents layer cell = b.holds layer cell
  looks : m.Looks b
  order : m.order = b.paintOrder

theorem shows_fresh (fixtures : Nat) : ({} : Mirror).Shows { fixtures } where
  contents layer _ := by cases layer <;> rfl
  looks := ⟨by rintro _ _ ⟨⟩, fun _ _ => rfl⟩
  order := rfl

variable {s t : Studio} {d : Desk}

/-- The mirror hears the fragments of the new tile and its neighbours before it hears that the tile
is there. -/
theorem Shows.arrival {news : Event → Bool} {type : String} {order : List EntityId}
    {own around : List Recomposition}
    (h : m.Shows s.board) (sound : s.board.Sound) (named : type ≠ "")
    (told : Arrival news d layer cell type s t order own around) :
    (m.hears (own.map Recomposition.event ++ [.reordered order] ++ around.map Recomposition.event ++
      [.added layer s.board.nextId cell type])).Shows t.board := by
  simp only [hears_append, hears_cons, hears_nil]
  obtain ⟨b, first, second⟩ := told.recomposed.of_append
  have redraws := told.recomposed.redraws
  have sound₁ := sound.arrived told.free told.keyed named told.sorted
  have sound₂ := first.redraws.moves.sound sound₁
  let m₁ := m.hears (own.map Recomposition.event)
  let m₂ := m₁.hear (.reordered order)
  let m₃ := m₂.hears (around.map Recomposition.event)
  have contents : m₃.contents = m.contents :=
    (hears_recompositions m₂ around).1.trans (hears_recompositions m own).1
  have ordered : m₃.order = order := (hears_recompositions m₂ around).2
  have looks : m₃.Looks t.board := by
    have own_heard : m₁.Looks b := (h.looks.arrived sound).recomposed sound₁ first
    have ordered_too : m₂.Looks b := own_heard.congr rfl
    exact ordered_too.recomposed sound₂ second
  constructor
  · intro l c
    change (if l = layer ∧ c = cell then _ else m₃.contents l c) = _
    rw [redraws.holds, sound.holds_arrived told.free, contents, h.contents]
  · exact looks.congr rfl
  · exact ordered.trans redraws.paintOrder.symm

theorem hears_struck {order : List EntityId} (id : EntityId) (h : m.order = order) :
    ∃ m₁, m.hears (if id ∈ order then [.reordered (order.erase id)] else []) = m₁ ∧
      m₁.contents = m.contents ∧ m₁.fragments = m.fragments ∧ m₁.order = order.erase id := by
  by_cases painted : id ∈ order
  · rw [if_pos painted]
    exact ⟨_, rfl, rfl, rfl, rfl⟩
  · rw [if_neg painted, List.erase_of_not_mem painted]
    exact ⟨_, rfl, rfl, rfl, h⟩

theorem Shows.departure {news : Event → Bool} {id : EntityId} {e : Entity}
    {around : List Recomposition} (h : m.Shows s.board) (sound : s.board.Sound)
    (told : Departure news d layer cell s t id e around) :
    (m.hears (
      (if id ∈ s.board.paintOrder then [.reordered (s.board.paintOrder.erase id)] else []) ++
        around.map Recomposition.event ++ [.removed layer id cell e.type])).Shows t.board := by
  simp only [hears_append, hears_cons, hears_nil]
  have redraws := told.recomposed.redraws
  have sound₁ := sound.withdrawn told.found
  obtain ⟨m₁, struck, contents₁, fragments₁, order₁⟩ := hears_struck id h.order
  rw [struck]
  let m₂ := m₁.hears (around.map Recomposition.event)
  have contents : m₂.contents = m.contents := (hears_recompositions m₁ around).1.trans contents₁
  have ordered : m₂.order = s.board.paintOrder.erase id :=
    (hears_recompositions m₁ around).2.trans order₁
  have looks : m₂.Looks t.board :=
    (h.looks.withdrawn.congr fragments₁).recomposed sound₁ told.recomposed
  constructor
  · intro l c
    change (if l = layer ∧ c = cell then _ else m₂.contents l c) = _
    rw [redraws.holds, sound.holds_withdrawn told.found, contents, h.contents]
  · exact looks.congr rfl
  · exact ordered.trans redraws.paintOrder.symm

theorem Shows.recomposed {rs : List Recomposition} (h : m.Shows b) (sound : b.Sound)
    (told : b.Recomposed book rs b') : (m.hears (rs.map Recomposition.event)).Shows b' := by
  obtain ⟨contents, order⟩ := hears_recompositions m rs
  constructor
  · intro layer cell
    rw [contents, told.redraws.holds, h.contents]
  · exact h.looks.recomposed sound told
  · rw [order, told.redraws.paintOrder, h.order]

theorem shows_clear (tidy : b.Tidy) : ({} : Mirror).Shows b.clear where
  contents layer cell := (b.holds_clear layer cell).symm
  looks := by
    constructor
    · intro id e known
      rw [Board.entity?, tidy.entities_clear] at known
      cases known
    · intro id _
      rfl
  order := rfl

end Mirror

end Autotile
