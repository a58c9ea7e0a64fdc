import Autotile.Proofs.Board.Soundness
import Autotile.Proofs.Choice.Locality

/-! # Reading a sound board

On a sound board nothing that is looked up by its cell is missing, so a reading fails only where a
number is too large: to be written in a key, or to be placed in the painting order. -/
namespace Autotile

def Fault.IsOversize : Fault → Prop
  | .numeral .tooLongToWrite | .quotientTooLarge | .integerTooLarge => True
  | _ => False

theorem Cell.checkKey_eq_ok {c : Cell} {u : Unit} (h : c.checkKey = .ok u) : c.Keyed := by
  by_cases hk : c.Keyed
  · exact hk
  · rw [checkKey, if_neg hk] at h
    cases h

theorem Cell.checkKey_of_keyed {c : Cell} (h : c.Keyed) : c.checkKey = .ok () := if_pos h

theorem Cell.Keyed.failsBy_checkKey {P : Fault → Prop} {c : Cell} (h : c.Keyed) :
    FailsBy P c.checkKey := by
  rw [checkKey_of_keyed h]
  exact failsBy_ok _

theorem Cell.checkKey_failsBy (c : Cell) : FailsBy Fault.IsOversize c.checkKey := by
  by_cases hk : c.Keyed
  · exact hk.failsBy_checkKey
  · rw [checkKey, if_neg hk]
    exact failsBy_error trivial

private theorem failsBy_finite (x : Numeral.Binary64) {fault : Fault} (h : fault.IsOversize) :
    FailsBy Fault.IsOversize (if x.isFinite then .ok x else .error fault) := by
  by_cases hx : x.isFinite = true
  · rw [if_pos hx]
    exact failsBy_ok _
  · rw [if_neg hx]
    exact failsBy_error h

theorem Cell.depth_failsBy (c : Cell) : FailsBy Fault.IsOversize c.depth := by
  have quotient : Fault.IsOversize .quotientTooLarge := trivial
  have integer : Fault.IsOversize .integerTooLarge := trivial
  unfold depth third ground
  exact (failsBy_finite _ quotient).bind fun _ _ => (failsBy_finite _ integer).bind fun _ _ =>
    failsBy_ok _

namespace Board

theorem idAt_eq_ok {b : Board} {layer : Layer} {cell : Cell} {found : Option EntityId}
    (h : b.idAt layer cell = .ok found) : cell.Keyed ∧ b.find? layer cell = found := by
  obtain ⟨_, hk, h⟩ := eq_ok_of_bind h
  exact ⟨Cell.checkKey_eq_ok hk, Except.ok.inj h⟩

theorem idAt_of_keyed (b : Board) (layer : Layer) {cell : Cell} (h : cell.Keyed) :
    b.idAt layer cell = .ok (b.find? layer cell) := by
  rw [idAt, Cell.checkKey_of_keyed h]
  rfl

theorem idAt_failsBy {P : Fault → Prop} (b : Board) (layer : Layer) {cell : Cell}
    (looked : FailsBy P cell.checkKey) : FailsBy P (b.idAt layer cell) :=
  looked.bind fun _ _ => failsBy_ok _

theorem entity_eq_ok {b : Board} {id : EntityId} {e : Entity} (h : b.entity id = .ok e) :
    b.entity? id = some e := by
  unfold entity at h
  cases he : b.entity? id with
  | some e' =>
    rw [he] at h
    exact congrArg some (Except.ok.inj h)
  | none =>
    rw [he] at h
    by_cases hf : b.isFixture id = true <;> simp [hf] at h

theorem entity_of_entity? {b : Board} {id : EntityId} {e : Entity} (h : b.entity? id = some e) :
    b.entity id = .ok e := by
  rw [entity, h]

theorem tile_eq_ok {b : Board} {id : EntityId} {e : Entity} (h : b.tile id = .ok e) :
    b.entity? id = some e ∧ e.layer = .tile := by
  obtain ⟨e', he, h⟩ := eq_ok_of_bind h
  by_cases hl : e'.layer = .tile
  · rw [if_pos hl] at h
    obtain rfl := Except.ok.inj h
    exact ⟨entity_eq_ok he, hl⟩
  · rw [if_neg hl] at h
    cases h

theorem tile_of_entity? {b : Board} {id : EntityId} {e : Entity} (h : b.entity? id = some e)
    (hl : e.layer = .tile) : b.tile id = .ok e := by
  rw [tile, entity_of_entity? h]
  exact if_pos hl

def type? (b : Board) (layer : Layer) (cell : Cell) : Option String :=
  ((b.find? layer cell).bind b.entity?).map (·.type)

namespace Sound

variable {b : Board} {layer : Layer}

theorem entity?_of_find? (h : b.Sound) {cell : Cell} {id : EntityId}
    (found : b.find? layer cell = some id) :
    ∃ e, b.entity? id = some e ∧ e.cell = cell ∧ e.layer = layer ∧ e.type ≠ "" :=
  h.stands layer cell id (h.find?_eq_some_iff.mp found)

theorem typeAt_eq (h : b.Sound) (layer : Layer) (cell : Cell) :
    b.typeAt layer cell = (fun _ => b.type? layer cell) <$> cell.checkKey := by
  unfold typeAt idAt type?
  cases cell.checkKey with
  | error fault => rfl
  | ok u =>
    cases hf : b.find? layer cell with
    | none => rfl
    | some id =>
      obtain ⟨e, he, _⟩ := h.entity?_of_find? hf
      change (do return some (← b.entity id).type) = _
      rw [entity_of_entity? he, Option.bind_some, he]
      rfl

theorem typeAt_failsBy (h : b.Sound) (layer : Layer) (cell : Cell) :
    FailsBy Fault.IsOversize (b.typeAt layer cell) := by
  rw [h.typeAt_eq]
  exact cell.checkKey_failsBy.map _

theorem composed_failsBy (h : b.Sound) (book : Rulebook) (e : Entity) :
    FailsBy Fault.IsOversize (b.composed book e) :=
  Rulebook.composeAt_failsBy (h.typeAt_failsBy .tile) e.type e.cell

/-- What is composed for a tile depends on the types at the cells that its rules look at. -/
theorem composed_congr {b' : Board} (h : b.Sound) (h' : b'.Sound) {book : Rulebook} {e : Entity}
    (content : ∀ o ∈ book.dependencies,
      b.type? .tile (e.cell + -o) = b'.type? .tile (e.cell + -o)) :
    b.composed book e = b'.composed book e := by
  refine Rulebook.composeAt_congr (fun o ho => ?_) fun c => ?_
  · rw [h.typeAt_eq, h'.typeAt_eq, content o ho]
  · rw [h.typeAt_eq, h'.typeAt_eq]
    cases c.checkKey <;> rfl

section Placing

variable {P : Fault → Prop} (h : b.Sound)
  (placed : ∀ layer cell id, (cell, id) ∈ b.index layer → FailsBy P cell.depth)
include h placed

theorem rank_failsBy {id : EntityId} (hid : id ∈ b.indexed) : FailsBy P (b.rank id) := by
  obtain ⟨layer, cell, hid⟩ := mem_indexed.mp hid
  obtain ⟨e, he, rfl, _⟩ := h.stands layer cell id hid
  unfold rank
  rw [entity_of_entity? he]
  refine (failsBy_ok e).bind fun _ same => ?_
  obtain rfl := Except.ok.inj same
  exact (placed layer _ id hid).bind fun _ _ => failsBy_ok _

theorem sorted_failsBy : FailsBy P (b.sorted b.indexed) :=
  (FailsBy.mapM fun _ hid => h.rank_failsBy placed hid).bind fun _ _ => failsBy_ok _

end Placing

end Sound

private theorem ids_of_ranks {b : Board} {ids : List EntityId} {ranks : List Rank}
    (h : ids.mapM b.rank = .ok ranks) : ranks.map (·.id) = ids := by
  induction ids generalizing ranks with
  | nil =>
    obtain rfl := Except.ok.inj h
    rfl
  | cons id ids ih =>
    rw [List.mapM_cons] at h
    obtain ⟨rank, hr, h⟩ := eq_ok_of_bind h
    obtain ⟨rest, hrest, h⟩ := eq_ok_of_bind h
    obtain rfl := Except.ok.inj h
    obtain ⟨e, _, hr⟩ := eq_ok_of_bind hr
    obtain ⟨depth, _, hr⟩ := eq_ok_of_bind hr
    obtain rfl := Except.ok.inj hr
    rw [List.map_cons, ih hrest]

theorem sorted_perm {b : Board} {ids order : List EntityId} (h : b.sorted ids = .ok order) :
    order.Perm ids := by
  obtain ⟨ranks, hr, h⟩ := eq_ok_of_bind h
  obtain rfl := Except.ok.inj h
  rw [← ids_of_ranks hr]
  exact (List.mergeSort_perm ranks Rank.le).map _

theorem Sound.sorted {b : Board} (h : b.Sound) {order : List EntityId}
    (ho : b.sorted b.indexed = .ok order) : (b.setOrder order).Sound := by
  have perm := sorted_perm ho
  exact h.setOrder (fun id hid => perm.mem_iff.mp hid) (perm.nodup_iff.mpr h.indexed_nodup)

end Board

end Autotile
