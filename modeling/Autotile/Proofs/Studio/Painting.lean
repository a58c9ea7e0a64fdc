import Autotile.Proofs.Board.Ranking
import Autotile.Proofs.Studio.Representation

/-! # The painting order of an edited map

However a map was edited, its painting order lists every entity once, from back to front. Only an
addition sorts; a removal strikes one entity off, and what it leaves is what sorting would give. -/
namespace Autotile.Board

open Edit Numeral

variable {book : Rulebook} {offsets : List Cell} {b b' : Board} {layer : Layer} {cell : Cell}
  {id i j : EntityId}

/-- One entity is painted before another: at a lesser depth, or at the same depth and older. -/
def PaintsBefore (b : Board) (i j : EntityId) : Prop :=
  ∃ e f x y, b.entity? i = some e ∧ b.entity? j = some f ∧
    e.cell.depth = .ok x ∧ f.cell.depth = .ok y ∧
    (x.lt y = true ∨ (∃ p, x.place? = some p ∧ y.place? = some p) ∧ e.sequence < f.sequence)

theorem Tidy.sequence_inj (h : b.Tidy) {i j : EntityId} {e f : Entity}
    (he : b.entity? i = some e) (hf : b.entity? j = some f) (same : e.sequence = f.sequence) :
    i = j := by
  have once := List.inj_on_of_nodup_map h.sequences_once
  have entry := once (mem_of_lookup he) (mem_of_lookup hf) same
  exact congrArg Prod.fst entry

theorem paintsBefore_of_key_le {x y : Rank} (hx : b.rank i = .ok x) (hy : b.rank j = .ok y)
    (ages : ∀ e f, b.entity? i = some e → b.entity? j = some f → e.sequence ≠ f.sequence)
    (key : b.paintKey i ≤ b.paintKey j) : b.PaintsBefore i j := by
  obtain ⟨e, he, hd, hs, _⟩ := rank_eq_ok hx
  obtain ⟨f, hf, hd', hs', _⟩ := rank_eq_ok hy
  obtain ⟨p, hp⟩ := Cell.place?_depth hd
  obtain ⟨q, hq⟩ := Cell.place?_depth hd'
  unfold paintKey Rank.key at key
  rw [placing_eq hx, placing_eq hy, hp, hq, hs, hs'] at key
  refine ⟨e, f, x.depth, y.depth, he, hf, hd, hd', ?_⟩
  rcases Prod.Lex.toLex_le_toLex.mp key with farther | ⟨level, rest⟩
  · left
    rw [Binary64.lt, hp, hq, Binary64.placed, Binary64.Place.lt_eq]
    exact decide_eq_true farther
  · right
    obtain rfl := Binary64.Place.height_injective level
    refine ⟨⟨p, hp, hq⟩, ?_⟩
    rcases Prod.Lex.toLex_le_toLex.mp rest with older | ⟨same, _⟩
    · exact older
    · exact absurd same (ages e f he hf)

theorem sorted_ascends {ids order : List EntityId} (sorted : b.sorted ids = .ok order)
    (once : ids.Nodup)
    (ages : ∀ i ∈ ids, ∀ j ∈ ids, i ≠ j → ∀ e f, b.entity? i = some e → b.entity? j = some f →
      e.sequence ≠ f.sequence) : order.Pairwise b.PaintsBefore := by
  obtain ⟨ranked, perm, ascending⟩ := sorted_eq_ok_iff.mp sorted
  refine (ascending.and (perm.nodup_iff.mpr once)).imp_of_mem ?_
  rintro i j hi hj ⟨key, apart⟩
  have hi := perm.mem_iff.mp hi
  have hj := perm.mem_iff.mp hj
  obtain ⟨x, hx⟩ := ranked i hi
  obtain ⟨y, hy⟩ := ranked j hj
  exact paintsBefore_of_key_le hx hy (ages i hi j hj apart) key

/-- How the painting order stands to the map: it lists the indexed entities, which are all there
are, each once and from back to front, and it is what sorting them gives. -/
structure PaintedInOrder (b : Board) : Prop where
  indexed : b.paintOrder.Perm b.indexed
  entities : b.paintOrder.Perm (b.entities.map Prod.fst)
  once : b.paintOrder.Nodup
  ascending : b.paintOrder.Pairwise b.PaintsBefore
  sorted : b.sorted b.indexed = .ok b.paintOrder

theorem Reached.painted (h : Reached book offsets b) : b.Painted :=
  h.invariant painted_fresh fun _ _ sound painted move => painted.move sound move

theorem Reached.paintedInOrder (h : Reached book offsets b) : b.PaintedInOrder := by
  have sorted := h.painted
  have perm := sorted_perm sorted
  have once := h.sound.indexed_nodup
  constructor
  case indexed => exact perm
  case entities => exact perm.trans (h.tidy.entities_perm h.sound).symm
  case once => exact perm.nodup_iff.mpr once
  case ascending =>
    apply sorted_ascends sorted once
    intro i _ j _ apart e f he hf same
    exact apart (h.tidy.sequence_inj he hf same)
  case sorted => exact sorted

theorem Redraws.paintOrder (h : Redraws book b b') : b'.paintOrder = b.paintOrder := by
  induction h with
  | refl => rfl
  | tail _ last ih =>
    cases last
    exact ih

/-- However a map was edited, its entities are painted from back to front. A removal of one strikes
it off, and that is how sorting the rest would order them. -/
theorem painting_order_sorted (reached : Reached book offsets b) :
    b.PaintedInOrder ∧
    ∀ (hear : Event → Edit Unit) (s t : Studio) (layer : Layer) (given : Datum) (cell : Cell)
      (id : EntityId) (answer : Answer), s.board = b → Quiet hear → given.toCell = .ok cell →
      b.find? layer cell = some id →
      (Command.remove layer given).run ⟨book, offsets, hear⟩ s = .ok answer t →
      answer = .truth true ∧ t.board.paintOrder = b.paintOrder.erase id ∧
        b.sorted (b.indexed.erase id) = .ok t.board.paintOrder := by
  refine ⟨reached.paintedInOrder, ?_⟩
  rintro hear s t layer given cell id answer rfl quiet at_cell here run
  obtain ⟨truth, redrawn⟩ := Desk.departure_of_run quiet at_cell here run
  have order : t.board.paintOrder = s.board.paintOrder.erase id := redrawn.paintOrder
  exact ⟨truth, order, order ▸ sorted_erase reached.painted id⟩

theorem Reached.written (h : Reached book offsets b) {order : List EntityId}
    (known : b.paintOrder = order) : Reached book offsets (b.setOrder order) := by
  subst known
  exact h

/-- A rock in front, and one behind it with a tree. When the rock under the tree is removed, the
tree is still behind the rock in front. -/
theorem painting_order_sorted_rock_behind :
    let d : Desk := ⟨.empty, [], fun _ => pure ()⟩
    ∃ s t, Reached .empty [] s.board ∧ s.board.paintOrder = [3, 4, 2] ∧
      s.board.PaintedInOrder ∧
      (Command.remove .tile (.cell Cell.origin)).run d s = .ok (.truth true) t ∧
      t.board.paintOrder = [4, 2] ∧
      s.board.sorted (s.board.indexed.erase 3) = .ok [4, 2] := by
  intro d
  let put (layer : Layer) (cell : Cell) (type : String) : Command :=
    .add layer (.cell cell) (.text type)
  let dig : Command := .remove .tile (.cell Cell.origin)
  let start : Studio := { board := { fixtures := 1 } }
  let s₁ := after ((put .tile ⟨1, 0, 0⟩ "rock").run d) start
  let s₂ := after ((put .tile Cell.origin "rock").run d) s₁
  let s₃ := after ((put .object Cell.origin "tree").run d) s₂
  have quiet : Quiet d.hear := fun _ _ => rfl
  have r₁ : Reached .empty [] s₁.board :=
    Reached.run_after (s := start) (.fresh 1) quiet _ (by decide +kernel)
  have r₂ : Reached .empty [] s₂.board := r₁.run_after quiet _ (by decide +kernel)
  have r₃ : Reached .empty [] s₃.board := r₂.run_after quiet _ (by decide +kernel)
  -- sorting does not evaluate, so the painting order is the one that ascends
  have order : s₃.board.paintOrder = [3, 4, 2] :=
    r₃.painted.paintOrder_eq (by decide +kernel) (by decide +kernel)
  let s : Studio := { board := s₃.board.setOrder [3, 4, 2] }
  have reached : Reached .empty [] s.board := r₃.written order
  obtain ⟨answer, dug⟩ := run_of_answers (s := s)
    (show answers (dig.run d) s = true by decide +kernel)
  obtain ⟨inOrder, removal⟩ := painting_order_sorted reached
  obtain ⟨rfl, left, resorted⟩ := removal _ _ _ .tile (.cell Cell.origin) Cell.origin 3 _ rfl quiet
    rfl (by decide +kernel) dug
  have struck : s.board.paintOrder.erase 3 = [4, 2] := by decide +kernel
  rw [struck] at left
  rw [left] at resorted
  exact ⟨s, _, reached, rfl, inOrder, dug, left, resorted⟩

end Autotile.Board
