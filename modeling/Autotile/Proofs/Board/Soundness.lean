import Autotile.Board.Reading
import Autotile.Proofs.Lookup

/-! # Sound boards

On a sound board every indexed entity stands where its index says, each cell holds at most one
entity of a layer, and the painting order lists indexed entities, none twice. Entities that are
indexed nowhere are allowed: while one is being removed, the board is sound without it. -/
namespace Autotile

namespace Board

@[simp] theorem index_setOrder (b : Board) (order : List EntityId) (layer : Layer) :
    (b.setOrder order).index layer = b.index layer := by
  cases layer <;> rfl

@[simp] theorem index_setFragments (b : Board) (id : EntityId) (fragments : List Fragment)
    (layer : Layer) : (b.setFragments id fragments).index layer = b.index layer := by
  cases layer <;> rfl

@[simp] theorem index_delete (b : Board) (id : EntityId) (layer : Layer) :
    (b.delete id).index layer = b.index layer := by
  cases layer <;> rfl

theorem index_insert_of_ne (b : Board) {layer other : Layer} (h : other ≠ layer) (cell : Cell)
    (type : String) : (b.insert layer cell type).index other = b.index other := by
  cases layer <;> cases other <;> first | rfl | exact absurd rfl h

theorem index_vacate_of_ne (b : Board) {layer other : Layer} (h : other ≠ layer) (cell : Cell) :
    (b.vacate layer cell).index other = b.index other :=
  b.index_setIndex_of_ne h _

theorem mem_index_insert {b : Board} {layer l : Layer} {cell c : Cell} {type : String}
    {id : EntityId} : (c, id) ∈ (b.insert layer cell type).index l ↔
      (c, id) ∈ b.index l ∨ (l = layer ∧ c = cell ∧ id = b.nextId) := by
  by_cases hl : l = layer
  · subst hl
    simp
  · rw [index_insert_of_ne b hl]
    simp [hl]

theorem mem_index_vacate {b : Board} {layer l : Layer} {cell c : Cell} {id : EntityId} :
    (c, id) ∈ (b.vacate layer cell).index l ↔ (c, id) ∈ b.index l ∧ (l = layer → c ≠ cell) := by
  by_cases hl : l = layer
  · subst hl
    simp
  · rw [index_vacate_of_ne b hl]
    simp [hl]

theorem mem_indexed {b : Board} {id : EntityId} :
    id ∈ b.indexed ↔ ∃ layer cell, (cell, id) ∈ b.index layer := by
  simp only [indexed, List.mem_append, List.mem_map]
  constructor
  · rintro (⟨⟨cell, _⟩, h, rfl⟩ | ⟨⟨cell, _⟩, h, rfl⟩)
    · exact ⟨.tile, cell, h⟩
    · exact ⟨.object, cell, h⟩
  · rintro ⟨layer, cell, h⟩
    cases layer with
    | tile => exact Or.inl ⟨_, h, rfl⟩
    | object => exact Or.inr ⟨_, h, rfl⟩

theorem entity?_insert_or (b : Board) (layer : Layer) (cell : Cell) (type : String)
    (id : EntityId) : (b.insert layer cell type).entity? id =
      (b.entity? id).or
        (if id = b.nextId then some { cell, sequence := b.nextSequence, layer, type }
        else none) := by
  change (b.entities ++ _).lookup id = _
  rw [List.lookup_append]
  by_cases h : id = b.nextId
  · simp [h, entity?]
  · simp [List.lookup_cons, beq_eq_false_iff_ne.mpr h, h, entity?]

theorem entity?_insert {b : Board} (unused : b.entity? b.nextId = none) (layer : Layer)
    (cell : Cell) (type : String) (id : EntityId) :
    (b.insert layer cell type).entity? id =
      if id = b.nextId then some { cell, sequence := b.nextSequence, layer, type }
      else b.entity? id := by
  rw [entity?_insert_or]
  by_cases h : id = b.nextId
  · rw [h, unused, Option.none_or]
  · simp [h]

@[simp] theorem entity?_vacate (b : Board) (layer : Layer) (cell : Cell) (id : EntityId) :
    (b.vacate layer cell).entity? id = b.entity? id := by
  cases layer <;> rfl

@[simp] theorem entity?_setOrder (b : Board) (order : List EntityId) (id : EntityId) :
    (b.setOrder order).entity? id = b.entity? id := rfl

theorem entity?_delete (b : Board) (id other : EntityId) :
    (b.delete id).entity? other = if other = id then none else b.entity? other := by
  change (b.entities.filter fun x => decide (x.1 ≠ id)).lookup other = _
  rw [lookup_filter_key fun k => decide (k ≠ id)]
  by_cases h : other = id <;> simp [h, entity?]

theorem entity?_setFragments (b : Board) (id : EntityId) (fragments : List Fragment)
    (other : EntityId) : (b.setFragments id fragments).entity? other =
      (b.entity? other).map fun e => if other = id then { e with fragments } else e := by
  let redraw (k : EntityId) (e : Entity) : Entity := if k = id then { e with fragments } else e
  have split : (b.setFragments id fragments).entities =
      b.entities.map fun entry => (entry.1, redraw entry.1 entry.2) := by
    refine List.map_congr_left fun entry _ => ?_
    by_cases h : entry.1 = id <;> simp [redraw, h]
  rw [entity?, split, lookup_map_value redraw b.entities other]
  rfl

theorem entity?_clear (b : Board) (id : EntityId) :
    b.clear.entity? id = if id ∈ b.indexed then none else b.entity? id := by
  change (b.entities.filter fun x => !b.indexed.contains x.1).lookup id = _
  rw [lookup_filter_key fun k => !b.indexed.contains k]
  by_cases h : id ∈ b.indexed <;> simp [h, entity?]

theorem find?_eq_none_of_blocks {b : Board} {layer : Layer} {cell : Cell}
    (h : ¬b.blocks layer cell = true) :
    b.find? layer cell = none := by
  cases layer with
  | tile =>
    simp only [blocks, Bool.or_eq_true, not_or] at h
    simpa using h.1
  | object => simpa [blocks] using h

structure Sound (b : Board) : Prop where
  stands : ∀ layer cell id, (cell, id) ∈ b.index layer →
    ∃ e, b.entity? id = some e ∧ e.cell = cell ∧ e.layer = layer ∧ e.type ≠ ""
  keyed : ∀ layer cell id, (cell, id) ∈ b.index layer → cell.Keyed
  one_per_cell : ∀ layer, ((b.index layer).map Prod.fst).Nodup
  numbered : ∀ id e, b.entity? id = some e → id < b.nextId
  painted : ∀ id ∈ b.paintOrder, id ∈ b.indexed
  painted_once : b.paintOrder.Nodup

theorem sound_fresh (fixtures : Nat) : Sound { fixtures } where
  stands := by rintro (_ | _) _ _ ⟨⟩
  keyed := by rintro (_ | _) _ _ ⟨⟩
  one_per_cell := by rintro (_ | _) <;> exact List.nodup_nil
  numbered := by rintro _ _ ⟨⟩
  painted := by rintro _ ⟨⟩
  painted_once := List.nodup_nil

namespace Sound

variable {b : Board} {layer other : Layer} {cell c : Cell} {id : EntityId}

theorem find?_eq_some_iff (h : b.Sound) :
    b.find? layer cell = some id ↔ (cell, id) ∈ b.index layer :=
  ⟨mem_of_lookup, lookup_of_mem (h.one_per_cell layer)⟩

theorem indexed_lt (h : b.Sound) (hid : id ∈ b.indexed) : id < b.nextId := by
  obtain ⟨layer, cell, hid⟩ := mem_indexed.mp hid
  obtain ⟨e, he, _⟩ := h.stands layer cell id hid
  exact h.numbered id e he

theorem next_unused (h : b.Sound) : b.entity? b.nextId = none := by
  cases he : b.entity? b.nextId with
  | none => rfl
  | some e => exact (Nat.lt_irrefl _ (h.numbered _ e he)).elim

theorem stands_once (h : b.Sound) (h₁ : (cell, id) ∈ b.index layer)
    (h₂ : (c, id) ∈ b.index other) : cell = c ∧ layer = other := by
  obtain ⟨e, he, hc, hl, _⟩ := h.stands layer cell id h₁
  obtain ⟨e', he', hc', hl', _⟩ := h.stands other c id h₂
  obtain rfl : e = e' := Option.some.inj (he.symm.trans he')
  exact ⟨hc.symm.trans hc', hl.symm.trans hl'⟩

theorem one_at_cell (h : b.Sound) {id' : EntityId} (h₁ : (cell, id) ∈ b.index layer)
    (h₂ : (cell, id') ∈ b.index layer) : id = id' :=
  Option.some.inj ((h.find?_eq_some_iff.mpr h₁).symm.trans (h.find?_eq_some_iff.mpr h₂))

theorem entity?_insert_of_mem (h : b.Sound) (hid : id ∈ b.indexed) (type : String) :
    (b.insert layer cell type).entity? id = b.entity? id := by
  rw [entity?_insert h.next_unused, if_neg (Nat.ne_of_lt (h.indexed_lt hid))]

theorem indexed_nodup (h : b.Sound) : b.indexed.Nodup := by
  have once : ∀ layer, ((b.index layer).map Prod.snd).Nodup := by
    intro layer
    refine List.pairwise_map.mpr ((List.pairwise_map.mp (h.one_per_cell layer)).imp_of_mem ?_)
    rintro ⟨cell, id⟩ ⟨c, _⟩ h₁ h₂ apart rfl
    exact apart (h.stands_once h₁ h₂).1
  refine List.nodup_append.mpr ⟨once .tile, once .object, ?_⟩
  rintro _ htile id hobject rfl
  obtain ⟨⟨cell, _⟩, tile, hid⟩ := List.mem_map.mp htile
  obtain ⟨⟨c, _⟩, object, rfl⟩ := List.mem_map.mp hobject
  obtain rfl := hid
  have onTile : Layer.tile = Layer.object := (h.stands_once tile object).2
  cases onTile

theorem setOrder (h : b.Sound) {order : List EntityId} (indexed : ∀ id ∈ order, id ∈ b.indexed)
    (once : order.Nodup) : (b.setOrder order).Sound where
  stands layer := by simpa using h.stands layer
  keyed layer := by simpa using h.keyed layer
  one_per_cell layer := by simpa using h.one_per_cell layer
  numbered := h.numbered
  painted := indexed
  painted_once := once

theorem setFragments (h : b.Sound) (id : EntityId) (fragments : List Fragment) :
    (b.setFragments id fragments).Sound where
  stands layer cell other hi := by
    rw [index_setFragments] at hi
    obtain ⟨e, he, hc, hl, ht⟩ := h.stands layer cell other hi
    refine ⟨_, by rw [entity?_setFragments, he, Option.map_some], ?_⟩
    by_cases ho : other = id <;> simp [ho, hc, hl, ht]
  keyed layer := by simpa using h.keyed layer
  one_per_cell layer := by simpa using h.one_per_cell layer
  numbered other e he := by
    rw [entity?_setFragments, Option.map_eq_some_iff] at he
    obtain ⟨e', he, _⟩ := he
    exact h.numbered other e' he
  painted := h.painted
  painted_once := h.painted_once

theorem mem_indexed_insert (b : Board) (layer : Layer) (cell : Cell) (type : String) :
    id ∈ (b.insert layer cell type).indexed ↔ id ∈ b.indexed ∨ id = b.nextId := by
  cases layer <;>
    simp [Board.indexed, Board.insert, Board.setIndex, Board.index, or_left_comm, or_comm]

theorem insert (h : b.Sound) (free : b.find? layer cell = none) (keyed : cell.Keyed)
    {type : String} (named : type ≠ "") : (b.insert layer cell type).Sound where
  stands l c id hi := by
    rcases mem_index_insert.mp hi with hi | ⟨rfl, rfl, rfl⟩
    · rw [h.entity?_insert_of_mem (mem_indexed.mpr ⟨l, c, hi⟩)]
      exact h.stands l c id hi
    · rw [entity?_insert h.next_unused]
      exact ⟨_, if_pos rfl, rfl, rfl, named⟩
  keyed l c id hi := by
    rcases mem_index_insert.mp hi with hi | ⟨_, rfl, _⟩
    · exact h.keyed l c id hi
    · exact keyed
  one_per_cell l := by
    by_cases hl : l = layer
    · subst hl
      rw [index_insert, List.map_append, List.map_singleton, List.nodup_append]
      refine ⟨h.one_per_cell l, List.pairwise_singleton _ _, ?_⟩
      rintro c hc _ hd rfl
      obtain rfl := List.mem_singleton.mp hd
      obtain ⟨⟨c, id⟩, hi, rfl⟩ := List.mem_map.mp hc
      rw [h.find?_eq_some_iff.mpr hi] at free
      cases free
    · rw [index_insert_of_ne b hl]
      exact h.one_per_cell l
  numbered id e he := by
    rw [entity?_insert h.next_unused] at he
    by_cases hid : id = b.nextId
    · exact hid ▸ Nat.lt_succ_self b.nextId
    · rw [if_neg hid] at he
      exact Nat.lt_succ_of_lt (h.numbered id e he)
  painted id hid := (mem_indexed_insert b layer cell type).mpr (Or.inl (h.painted id (by
    cases layer <;> exact hid)))
  painted_once := by
    cases layer <;> exact h.painted_once

theorem mem_indexed_vacate (h : b.Sound) (found : b.find? layer cell = some id) {j : EntityId} :
    j ∈ (b.vacate layer cell).indexed ↔ j ∈ b.indexed ∧ j ≠ id := by
  have hi := h.find?_eq_some_iff.mp found
  simp only [mem_indexed]
  constructor
  · rintro ⟨l, c, hj⟩
    obtain ⟨hj, apart⟩ := mem_index_vacate.mp hj
    refine ⟨⟨l, c, hj⟩, ?_⟩
    rintro rfl
    obtain ⟨hc, hl⟩ := h.stands_once hj hi
    exact apart hl hc
  · rintro ⟨⟨l, c, hj⟩, hne⟩
    refine ⟨l, c, mem_index_vacate.mpr ⟨hj, ?_⟩⟩
    rintro rfl rfl
    exact hne (h.one_at_cell hj hi)

theorem index_vacate_sublist (b : Board) (layer l : Layer) (cell : Cell) :
    ((b.vacate layer cell).index l).Sublist (b.index l) := by
  by_cases hl : l = layer
  · subst hl
    rw [index_vacate]
    exact List.filter_sublist
  · have same := index_vacate_of_ne b hl cell
    exact same ▸ List.Sublist.refl _

theorem withdraw (h : b.Sound) (found : b.find? layer cell = some id) :
    ((b.vacate layer cell).setOrder (b.paintOrder.erase id)).Sound where
  stands l c j hj := by
    rw [index_setOrder] at hj
    simpa using h.stands l c j ((index_vacate_sublist b layer l cell).subset hj)
  keyed l c j hj := by
    rw [index_setOrder] at hj
    exact h.keyed l c j ((index_vacate_sublist b layer l cell).subset hj)
  one_per_cell l := by
    rw [index_setOrder]
    exact (h.one_per_cell l).sublist ((index_vacate_sublist b layer l cell).map _)
  numbered j e he := by
    rw [entity?_setOrder, entity?_vacate] at he
    have := h.numbered j e he
    cases layer <;> exact this
  painted j hj := by
    obtain ⟨hne, hj⟩ := (h.painted_once.mem_erase_iff).mp hj
    exact (h.mem_indexed_vacate found).mpr ⟨h.painted j hj, hne⟩
  painted_once := h.painted_once.erase id

theorem delete (h : b.Sound) (gone : id ∉ b.indexed) : (b.delete id).Sound where
  stands l c j hj := by
    rw [index_delete] at hj
    have hne : j ≠ id := by
      rintro rfl
      exact gone (mem_indexed.mpr ⟨l, c, hj⟩)
    rw [entity?_delete, if_neg hne]
    exact h.stands l c j hj
  keyed l := by simpa using h.keyed l
  one_per_cell l := by simpa using h.one_per_cell l
  numbered j e he := by
    rw [entity?_delete] at he
    by_cases hj : j = id
    · rw [if_pos hj] at he
      cases he
    · rw [if_neg hj] at he
      exact h.numbered j e he
  painted := h.painted
  painted_once := h.painted_once

theorem clear (h : b.Sound) : b.clear.Sound where
  stands l c j hj := by
    rw [index_clear] at hj
    cases hj
  keyed l c j hj := by
    rw [index_clear] at hj
    cases hj
  one_per_cell l := by
    rw [index_clear]
    exact List.nodup_nil
  numbered j e he := by
    rw [entity?_clear] at he
    by_cases hj : j ∈ b.indexed
    · rw [if_pos hj] at he
      cases he
    · rw [if_neg hj] at he
      exact h.numbered j e he
  painted := by rintro _ ⟨⟩
  painted_once := List.nodup_nil

end Sound

end Board

end Autotile
