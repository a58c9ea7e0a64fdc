import Autotile.Proofs.Board.Ranking

/-! # Numbers and ages

Entities are numbered as they arrive, and until the map is cleared so are their ages. Of two that
are indexed the one with the lesser number is the older, whatever is done to the board. -/
namespace Autotile.Board

open Numeral

variable {b b' : Board} {layer : Layer} {cell : Cell} {id i j : EntityId}

/-- Of two indexed entities the one with the lesser number is older, and both are older than the
next will be. -/
structure Aged (b : Board) : Prop where
  older : ∀ {i j e f}, i ∈ b.indexed → j ∈ b.indexed → b.entity? i = some e →
    b.entity? j = some f → i < j → e.sequence < f.sequence
  below : ∀ {i e}, i ∈ b.indexed → b.entity? i = some e → e.sequence < b.nextSequence

theorem aged_of_bare (bare : b.indexed = []) : b.Aged := by
  constructor
  · intro i j e f hi
    rw [bare] at hi
    cases hi
  · intro i e hi
    rw [bare] at hi
    cases hi

theorem aged_fresh (fixtures : Nat) : Aged { fixtures } := aged_of_bare rfl

namespace Aged

theorem fewer (h : b.Aged) (indexed : ∀ j ∈ b'.indexed, j ∈ b.indexed)
    (known : ∀ j ∈ b'.indexed, ∀ e', b'.entity? j = some e' →
      ∃ e, b.entity? j = some e ∧ e.sequence = e'.sequence)
    (counter : b'.nextSequence = b.nextSequence) : b'.Aged := by
  constructor
  · intro i j e' f' hi hj he hf lt
    obtain ⟨e, he, age⟩ := known i hi e' he
    obtain ⟨f, hf, age'⟩ := known j hj f' hf
    rw [← age, ← age']
    exact h.older (indexed i hi) (indexed j hj) he hf lt
  · intro i e' hi he
    obtain ⟨e, he, age⟩ := known i hi e' he
    rw [← age, counter]
    exact h.below (indexed i hi) he

theorem setFragments (h : b.Aged) (id : EntityId) (fragments : List Fragment) :
    (b.setFragments id fragments).Aged := by
  refine h.fewer (fun _ hj => hj) (fun j _ e' he => ?_) rfl
  rw [entity?_setFragments, Option.map_eq_some_iff] at he
  obtain ⟨e, he, rfl⟩ := he
  refine ⟨e, he, ?_⟩
  split <;> rfl

theorem setOrder (h : b.Aged) (order : List EntityId) : (b.setOrder order).Aged :=
  ⟨h.older, h.below⟩

theorem delete (h : b.Aged) (gone : id ∉ b.indexed) : (b.delete id).Aged := by
  refine h.fewer (fun _ hj => hj) (fun j hj e he => ?_) rfl
  have apart : j ≠ id := by
    rintro rfl
    exact gone hj
  rw [entity?_delete, if_neg apart] at he
  exact ⟨e, he, rfl⟩

theorem vacate (h : b.Aged) (sound : b.Sound) (found : b.find? layer cell = some id) :
    (b.vacate layer cell).Aged := by
  refine h.fewer (fun j hj => ((sound.mem_indexed_vacate found).mp hj).1) (fun j _ e he => ?_) ?_
  · rw [entity?_vacate] at he
    exact ⟨e, he, rfl⟩
  · cases layer <;> rfl

theorem clear (b : Board) : b.clear.Aged := aged_of_bare rfl

theorem insert (h : b.Aged) (sound : b.Sound) (layer : Layer) (cell : Cell) (type : String) :
    (b.insert layer cell type).Aged := by
  have arrival : ∀ {j e}, j ∈ (b.insert layer cell type).indexed →
      (b.insert layer cell type).entity? j = some e →
      j ∈ b.indexed ∧ b.entity? j = some e ∨ j = b.nextId ∧ e.sequence = b.nextSequence := by
    intro j e hj he
    rw [entity?_insert sound.next_unused] at he
    rcases (Sound.mem_indexed_insert b layer cell type).mp hj with old | rfl
    · rw [if_neg (Nat.ne_of_lt (sound.indexed_lt old))] at he
      exact Or.inl ⟨old, he⟩
    · rw [if_pos rfl] at he
      obtain rfl := Option.some.inj he
      exact Or.inr ⟨rfl, rfl⟩
  constructor
  · intro i j e f hi hj he hf lt
    rcases arrival hi he with ⟨hi, he⟩ | ⟨rfl, age⟩
    · rcases arrival hj hf with ⟨hj, hf⟩ | ⟨rfl, age⟩
      · exact h.older hi hj he hf lt
      · rw [age]
        exact h.below hi he
    · rcases arrival hj hf with ⟨hj, -⟩ | ⟨rfl, -⟩
      · exact absurd (sound.indexed_lt hj) (Nat.lt_asymm lt)
      · exact absurd lt (Nat.lt_irrefl _)
  · intro i e hi he
    change e.sequence < b.nextSequence + 1
    rcases arrival hi he with ⟨hi, he⟩ | ⟨-, age⟩
    · exact Nat.lt_succ_of_lt (h.below hi he)
    · rw [age]
      exact Nat.lt_succ_self _

theorem paintKey_lt_iff (h : b.Aged) (hi : i ∈ b.indexed) (hj : j ∈ b.indexed)
    (first : i < j) {e f : Entity} (he : b.entity? i = some e) (hf : b.entity? j = some f)
    {x y : Binary64} (hx : e.cell.depth = .ok x) (hy : f.cell.depth = .ok y) :
    b.paintKey i < b.paintKey j ↔ y.lt x = false := by
  have older := h.older hi hj he hf first
  have placed := Cell.place?_depth hx
  have placed' := Cell.place?_depth hy
  rw [Binary64.lt_eq placed' placed, decide_eq_false_iff_not, not_lt, paintKey_eq he hx,
    paintKey_eq hf hy, Prod.Lex.toLex_lt_toLex, Prod.Lex.toLex_lt_toLex]
  constructor
  · rintro (farther | ⟨same, -⟩)
    · exact le_of_lt farther
    · exact le_of_eq same
  · intro level
    rcases lt_or_eq_of_le level with farther | same
    · exact Or.inl farther
    · exact Or.inr ⟨same, Or.inl older⟩

theorem older_first (h : b.Aged) (painted : b.Painted) (hi : i ∈ b.indexed) (hj : j ∈ b.indexed)
    (first : i < j) {e f : Entity} (he : b.entity? i = some e) (hf : b.entity? j = some f)
    {x y : Binary64} (hx : e.cell.depth = .ok x) (hy : f.cell.depth = .ok y)
    (level : x.height ≤ y.height) : [i, j].Sublist b.paintOrder := by
  apply (painted.sublist_iff hi hj (Nat.ne_of_lt first)).mpr
  apply (h.paintKey_lt_iff hi hj first he hf hx hy).mpr
  rw [Binary64.lt_eq (Cell.place?_depth hy) (Cell.place?_depth hx)]
  exact decide_eq_false (not_lt_of_ge level)

/-- Of entities at two cells the one of the lesser number is painted first if its cell is not
nearer and not higher than the other. -/
theorem first_behind (h : b.Aged) (painted : b.Painted) (sound : b.Sound) {l l' : Layer} {c : Cell}
    (hi : (c, i) ∈ b.index l) (hj : (cell, j) ∈ b.index l') (first : i < j)
    (front : c.s + c.e ≤ cell.s + cell.e) (up : c.u ≤ cell.u) : [i, j].Sublist b.paintOrder := by
  obtain ⟨e, he, rfl, -⟩ := sound.stands l c i hi
  obtain ⟨f, hf, rfl, -⟩ := sound.stands l' cell j hj
  have indexed := mem_indexed.mpr ⟨l, _, hi⟩
  have indexed' := mem_indexed.mpr ⟨l', _, hj⟩
  obtain ⟨x, hx⟩ := painted.depth_of_mem indexed he
  obtain ⟨y, hy⟩ := painted.depth_of_mem indexed' hf
  exact h.older_first painted indexed indexed' first he hf hx hy
    (Cell.height_le_of_le hx hy front up)

end Aged

end Autotile.Board
