import Mathlib.Data.List.Sort
import Autotile.Proofs.Board.Moves
import Autotile.Proofs.Cell.Rounding

/-! # The painting order sorts the board

A depth is never NaN, so the entities of a board are totally ordered and there is one way to sort
them. Whatever moves the board, the painting order is that way: a departure takes an entity out of
a sorted order, which leaves it sorted. -/
namespace Autotile

open Numeral

abbrev PaintKey := (Int ×ₗ Int) ×ₗ (Nat ×ₗ Nat)

namespace Rank

def key (x : Rank) : PaintKey :=
  toLex ((x.depth.place?.getD .below).height, toLex (x.sequence, x.id))

theorem le_eq {x y : Rank} (hx : ∃ p, x.depth.place? = some p) (hy : ∃ p, y.depth.place? = some p) :
    x.le y = decide (x.key ≤ y.key) := by
  unfold le
  rw [Binary64.lt_eq hx hy, Binary64.lt_eq hy hx, Bool.eq_iff_iff, decide_eq_true_iff]
  change _ ↔ toLex (x.depth.height, toLex (x.sequence, x.id)) ≤
    toLex (y.depth.height, toLex (y.sequence, y.id))
  simp only [Prod.Lex.toLex_le_toLex]
  rcases lt_trichotomy x.depth.height y.depth.height with before | same | behind
  · simp [before]
  · simp [same]
  · simp [behind, not_lt_of_gt behind, ne_of_gt behind]

end Rank

namespace Board

variable {book : Rulebook} {b b' : Board} {layer : Layer} {cell : Cell}
  {id i j : EntityId} {ids order : List EntityId}

/-- The rank of an entity; one that has none is no number deep. -/
def placing (b : Board) (id : EntityId) : Rank :=
  match b.rank id with
  | .ok rank => rank
  | .error _ => { depth := .nan, sequence := 0, id }

def paintKey (b : Board) (id : EntityId) : PaintKey := (b.placing id).key

theorem rank_eq_ok {x : Rank} (h : b.rank id = .ok x) : ∃ e, b.entity? id = some e ∧
    e.cell.depth = .ok x.depth ∧ x.sequence = e.sequence ∧ x.id = id := by
  obtain ⟨e, he, h⟩ := eq_ok_of_bind h
  obtain ⟨depth, hd, h⟩ := eq_ok_of_bind h
  obtain rfl := Except.ok.inj h
  exact ⟨e, entity_eq_ok he, hd, rfl, rfl⟩

theorem rank_of_depth {e : Entity} {x : Binary64} (he : b.entity? id = some e)
    (hx : e.cell.depth = .ok x) : b.rank id = .ok ⟨x, e.sequence, id⟩ := by
  unfold rank
  rw [bind_of_eq_ok (entity_of_entity? he), bind_of_eq_ok hx]
  rfl

theorem placing_eq {x : Rank} (h : b.rank id = .ok x) : b.placing id = x := by
  rw [placing, h]

theorem placing_id (b : Board) (id : EntityId) : (b.placing id).id = id := by
  cases h : b.rank id with
  | ok x =>
    obtain ⟨_, _, _, _, hx⟩ := rank_eq_ok h
    rw [placing_eq h, hx]
  | error fault => rw [placing, h]

theorem paintKey_injective (b : Board) : Function.Injective b.paintKey := by
  intro i j same
  unfold paintKey Rank.key at same
  simp only [toLex_inj, Prod.mk.injEq, placing_id] at same
  exact same.2.2

theorem paintKey_eq {e : Entity} {x : Binary64} (he : b.entity? id = some e)
    (hx : e.cell.depth = .ok x) : b.paintKey id = toLex (x.height, toLex (e.sequence, id)) := by
  unfold paintKey
  rw [placing_eq (rank_of_depth he hx)]
  rfl

def Ranked (b : Board) (ids : List EntityId) : Prop := ∀ id ∈ ids, ∃ x, b.rank id = .ok x

private theorem ranked_of_ranks {ranks : List Rank} (h : ids.mapM b.rank = .ok ranks) :
    b.Ranked ids := by
  induction ids generalizing ranks with
  | nil =>
    intro id hid
    cases hid
  | cons id ids ih =>
    rw [List.mapM_cons] at h
    obtain ⟨rank, hr, h⟩ := eq_ok_of_bind h
    obtain ⟨rest, hrest, _⟩ := eq_ok_of_bind h
    intro j hj
    rcases List.mem_cons.mp hj with rfl | hj
    · exact ⟨rank, hr⟩
    · exact ih hrest j hj

theorem ranked_of_sorted (h : b.sorted ids = .ok order) : b.Ranked ids := by
  obtain ⟨ranks, hr, _⟩ := eq_ok_of_bind h
  exact ranked_of_ranks hr

theorem Ranked.sorted_eq (h : b.Ranked ids) :
    b.sorted ids = .ok (ids.mergeSort fun i j => decide (b.paintKey i ≤ b.paintKey j)) := by
  have ranks : ids.mapM b.rank = .ok (ids.map b.placing) := by
    apply mapM_eq_ok
    intro id hid
    obtain ⟨x, hx⟩ := h id hid
    rw [hx, placing_eq hx]
  have placed : ∀ x ∈ ids.map b.placing, ∃ p, x.depth.place? = some p := by
    intro x hx
    obtain ⟨id, hid, rfl⟩ := List.mem_map.mp hx
    obtain ⟨x, hx⟩ := h id hid
    obtain ⟨e, _, depth, _⟩ := rank_eq_ok hx
    rw [placing_eq hx]
    exact Cell.place?_depth depth
  have itself : ∀ x ∈ ids.map b.placing, b.placing x.id = x := by
    intro x hx
    obtain ⟨id, _, rfl⟩ := List.mem_map.mp hx
    rw [placing_id]
  unfold sorted
  rw [ranks]
  refine congrArg Except.ok ?_
  rw [List.map_mergeSort (s := fun i j => decide (b.paintKey i ≤ b.paintKey j)), List.map_map]
  · refine congrArg (List.mergeSort · _) ?_
    exact (List.map_congr_left fun id _ => placing_id b id).trans (List.map_id ids)
  · intro x hx y hy
    rw [Rank.le_eq (placed x hx) (placed y hy), paintKey, paintKey, itself x hx, itself y hy]

theorem sorted_eq_ok_iff : b.sorted ids = .ok order ↔
    b.Ranked ids ∧ order.Perm ids ∧ order.Pairwise fun i j => b.paintKey i ≤ b.paintKey j := by
  have ascending : (ids.mergeSort fun i j => decide (b.paintKey i ≤ b.paintKey j)).Pairwise
      fun i j => b.paintKey i ≤ b.paintKey j := by
    refine (List.pairwise_mergeSort ?_ ?_ ids).imp of_decide_eq_true
    · intro i j k hij hjk
      exact decide_eq_true (le_trans (of_decide_eq_true hij) (of_decide_eq_true hjk))
    · intro i j
      simpa using le_total (b.paintKey i) (b.paintKey j)
  constructor
  · intro h
    have ranked := ranked_of_sorted h
    have same := Except.ok.inj (h.symm.trans ranked.sorted_eq)
    exact ⟨ranked, sorted_perm h, same ▸ ascending⟩
  · rintro ⟨ranked, perm, sorted⟩
    rw [ranked.sorted_eq]
    refine congrArg Except.ok (List.Perm.eq_of_pairwise ?_ ascending sorted ?_)
    · intro i j _ _ hij hji
      exact b.paintKey_injective (le_antisymm hij hji)
    · exact (List.mergeSort_perm ids _).trans perm.symm

theorem sorted_nil (b : Board) : b.sorted [] = .ok [] := by
  apply sorted_eq_ok_iff.mpr
  exact ⟨List.forall_mem_nil _, .refl _, .nil⟩

theorem sorted_of_perm (h : b.sorted ids = .ok order) {ids' : List EntityId}
    (same : ids'.Perm ids) : b.sorted ids' = .ok order := by
  obtain ⟨ranked, perm, sorted⟩ := sorted_eq_ok_iff.mp h
  apply sorted_eq_ok_iff.mpr
  exact ⟨fun id hid => ranked id (same.mem_iff.mp hid), perm.trans same.symm, sorted⟩

/-- What is left of a sorted order is what sorting the rest would give. -/
theorem sorted_erase (h : b.sorted ids = .ok order) (id : EntityId) :
    b.sorted (ids.erase id) = .ok (order.erase id) := by
  obtain ⟨ranked, perm, sorted⟩ := sorted_eq_ok_iff.mp h
  apply sorted_eq_ok_iff.mpr
  exact ⟨fun j hj => ranked j (List.mem_of_mem_erase hj), perm.erase id,
    sorted.sublist List.erase_sublist⟩

theorem sorted_congr (h : b.sorted ids = .ok order)
    (ranks : ∀ id ∈ ids, b'.rank id = b.rank id) : b'.sorted ids = .ok order := by
  obtain ⟨ranked, perm, sorted⟩ := sorted_eq_ok_iff.mp h
  have keys : ∀ id ∈ order, b'.paintKey id = b.paintKey id := by
    intro id hid
    unfold paintKey placing
    rw [ranks id (perm.mem_iff.mp hid)]
  apply sorted_eq_ok_iff.mpr
  refine ⟨fun id hid => ranks id hid ▸ ranked id hid, perm, sorted.imp_of_mem ?_⟩
  intro i j hi hj hij
  rw [keys i hi, keys j hj]
  exact hij

theorem sublist_or_sublist {α : Type} {xs : List α} {x y : α} (hx : x ∈ xs) (hy : y ∈ xs)
    (apart : x ≠ y) : [x, y].Sublist xs ∨ [y, x].Sublist xs := by
  obtain ⟨before, after, rfl⟩ := List.append_of_mem hx
  rcases List.mem_append.mp hy with hy | hy
  · right
    exact (List.singleton_sublist.mpr hy).append (List.singleton_sublist.mpr List.mem_cons_self)
  · left
    have later : y ∈ after := (List.mem_cons.mp hy).resolve_left fun same => apart same.symm
    exact ((List.singleton_sublist.mpr later).cons_cons x).trans (List.sublist_append_right _ _)

/-- The painting order is what sorting everything gives. -/
def Painted (b : Board) : Prop := b.sorted b.indexed = .ok b.paintOrder

theorem painted_fresh (fixtures : Nat) : Painted { fixtures } := sorted_nil _

namespace Painted

theorem setFragments (h : b.Painted) (id : EntityId) (fragments : List Fragment) :
    (b.setFragments id fragments).Painted :=
  sorted_congr h fun j _ => rank_setFragments b id fragments j

theorem redraw (h : b.Painted) (redrawn : Redraw book b b') : b'.Painted := by
  cases redrawn
  exact h.setFragments _ _

theorem arrived {type : String} (sorted : b.ArrivalOrder layer cell type order) :
    (b.arrived layer cell type order).Painted := sorted

theorem indexed_vacate (sound : b.Sound) (found : b.find? layer cell = some id) :
    (b.vacate layer cell).indexed.Perm (b.indexed.erase id) := by
  have once := (sound.withdraw found).indexed_nodup
  refine (List.perm_ext_iff_of_nodup once (sound.indexed_nodup.erase id)).mpr fun j => ?_
  have left : j ∈ ((b.vacate layer cell).setOrder (b.paintOrder.erase id)).indexed ↔
      j ∈ b.indexed ∧ j ≠ id := sound.mem_indexed_vacate found
  rw [left, sound.indexed_nodup.mem_erase_iff, and_comm]

theorem struck (h : b.Painted) (sound : b.Sound) (found : b.find? layer cell = some id) :
    ((b.vacate layer cell).setOrder (b.paintOrder.erase id)).Painted := by
  have rest := sorted_of_perm (sorted_erase h id) (indexed_vacate sound found)
  refine sorted_congr rest fun j _ => ?_
  have fixtures : ((b.vacate layer cell).setOrder (b.paintOrder.erase id)).fixtures =
      b.fixtures := by
    cases layer <;> rfl
  unfold rank entity isFixture
  rw [entity?_setOrder, entity?_vacate, fixtures]

theorem delete (h : b.Painted) (gone : id ∉ b.indexed) : (b.delete id).Painted := by
  refine sorted_congr h fun j hj => ?_
  have apart : j ≠ id := by
    rintro rfl
    exact gone hj
  unfold rank entity isFixture
  rw [entity?_delete, if_neg apart]
  rfl

theorem withdrawn (h : b.Painted) (sound : b.Sound) (found : b.find? layer cell = some id) :
    (b.withdrawn layer cell id).Painted :=
  (h.struck sound found).delete fun hi => ((sound.mem_indexed_vacate found).mp hi).2 rfl

theorem clear (b : Board) : b.clear.Painted := sorted_nil _

theorem move (h : b.Painted) (sound : b.Sound) (move : Move book b b') : b'.Painted := by
  cases move with
  | redraw redrawn => exact h.redraw redrawn
  | arrive _ _ _ sorted => exact arrived sorted
  | leave found => exact h.withdrawn sound found
  | clear => exact clear b

theorem paintOrder_eq (h : b.Painted) {order : List EntityId}
    (perm : order.Perm b.indexed)
    (ascending : order.Pairwise fun i j => b.paintKey i ≤ b.paintKey j) : b.paintOrder = order := by
  have same := sorted_eq_ok_iff.mpr ⟨ranked_of_sorted h, perm, ascending⟩
  exact Except.ok.inj (h.symm.trans same)

theorem sublist_iff (h : b.Painted) (hi : i ∈ b.indexed) (hj : j ∈ b.indexed)
    (apart : i ≠ j) : [i, j].Sublist b.paintOrder ↔ b.paintKey i < b.paintKey j := by
  obtain ⟨-, perm, ascending⟩ := sorted_eq_ok_iff.mp h
  have differ : b.paintKey i ≠ b.paintKey j := fun same => apart (b.paintKey_injective same)
  have sorted {x y : EntityId} (before : [x, y].Sublist b.paintOrder) :
      b.paintKey x ≤ b.paintKey y := List.pairwise_iff_forall_sublist.mp ascending before
  constructor
  · exact fun before => lt_of_le_of_ne (sorted before) differ
  · intro less
    rcases sublist_or_sublist (perm.mem_iff.mpr hi) (perm.mem_iff.mpr hj) apart with before | after
    · exact before
    · exact absurd (sorted after) (not_le_of_gt less)

theorem depth_of_mem (h : b.Painted) (hi : i ∈ b.indexed) {e : Entity}
    (he : b.entity? i = some e) : ∃ x, e.cell.depth = .ok x := by
  obtain ⟨rank, hr⟩ := ranked_of_sorted h i hi
  obtain ⟨e', he', depth, -⟩ := rank_eq_ok hr
  obtain rfl := Option.some.inj (he.symm.trans he')
  exact ⟨rank.depth, depth⟩

theorem farther_first (h : b.Painted) (hi : i ∈ b.indexed) (hj : j ∈ b.indexed) {e f : Entity}
    (he : b.entity? i = some e) (hf : b.entity? j = some f) {x y : Binary64}
    (hx : e.cell.depth = .ok x) (hy : f.cell.depth = .ok y) (farther : x.height < y.height) :
    [i, j].Sublist b.paintOrder := by
  have less : b.paintKey i < b.paintKey j := by
    rw [paintKey_eq he hx, paintKey_eq hf hy, Prod.Lex.toLex_lt_toLex]
    exact Or.inl farther
  have apart : i ≠ j := by
    intro same
    exact lt_irrefl _ (same ▸ less)
  exact (h.sublist_iff hi hj apart).mpr less

end Painted

end Board

end Autotile
