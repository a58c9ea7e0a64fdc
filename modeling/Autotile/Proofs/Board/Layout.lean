import Autotile.Proofs.Board.Moves

/-! # What a board holds

The layout of a layer tells the types that stand there, in the order in which they arrived. An
arrival appends to the layout of its layer, a departure takes one entry out, and what tiles look
like has no part in it. -/
namespace Autotile.Board

variable {book : Rulebook} {b b' : Board} {layer l : Layer} {cell c : Cell} {id : EntityId}

def layout (b : Board) (layer : Layer) : List (Cell × String) :=
  (b.index layer).map fun entry => (entry.1, (b.type? layer entry.1).getD "")

theorem map_fst_layout (b : Board) (layer : Layer) :
    (b.layout layer).map Prod.fst = (b.index layer).map Prod.fst := by
  rw [layout, List.map_map]
  rfl

theorem layout_congr (index : b'.index layer = b.index layer)
    (types : ∀ c, b'.type? layer c = b.type? layer c) : b'.layout layer = b.layout layer := by
  unfold layout
  rw [index]
  exact List.map_congr_left fun entry _ => by rw [types]

theorem type?_of_find? {e : Entity} (found : b.find? layer cell = some id)
    (known : b.entity? id = some e) : b.type? layer cell = some e.type := by
  rw [type?, found, Option.bind_some, known]
  rfl

theorem type?_eq_none (free : b.find? layer cell = none) : b.type? layer cell = none := by
  rw [type?, free]
  rfl

namespace Sound

variable (h : b.Sound)
include h

theorem isSome_type? (layer : Layer) (cell : Cell) :
    (b.type? layer cell).isSome = (b.find? layer cell).isSome := by
  cases found : b.find? layer cell with
  | none =>
    rw [type?_eq_none found]
    rfl
  | some id =>
    obtain ⟨e, known, _⟩ := h.entity?_of_find? found
    rw [type?_of_find? found known]
    rfl

theorem type?_ne_empty {type : String} (ht : b.type? layer cell = some type) : type ≠ "" := by
  cases found : b.find? layer cell with
  | none =>
    rw [type?_eq_none found] at ht
    cases ht
  | some id =>
    obtain ⟨e, known, _, _, named⟩ := h.entity?_of_find? found
    rw [type?_of_find? found known] at ht
    exact Option.some.inj ht ▸ named

theorem blocks_eq (layer : Layer) (cell : Cell) : b.blocks layer cell =
    match layer with
    | .tile => (b.type? .tile cell).isSome || (b.type? .object cell).isSome
    | .object => (b.type? .object cell).isSome := by
  cases layer <;> simp only [h.isSome_type?] <;> rfl

theorem lookup_layout (layer : Layer) (cell : Cell) :
    (b.layout layer).lookup cell = b.type? layer cell := by
  let named (c : Cell) (_ : EntityId) : String := (b.type? layer c).getD ""
  have split : b.layout layer = (b.index layer).map fun entry =>
    (entry.1, named entry.1 entry.2) := rfl
  rw [split, lookup_map_value named]
  change (b.find? layer cell).map (named cell) = _
  cases found : b.find? layer cell with
  | none => exact (type?_eq_none found).symm
  | some id =>
    obtain ⟨e, known, _⟩ := h.entity?_of_find? found
    rw [Option.map_some, type?_of_find? found known]
    exact congrArg (fun t => some (t.getD "")) (type?_of_find? found known)

theorem layout_once (layer : Layer) : ((b.layout layer).map Prod.fst).Nodup :=
  map_fst_layout b layer ▸ h.one_per_cell layer

theorem mem_layout {type : String} :
    (cell, type) ∈ b.layout layer ↔ b.type? layer cell = some type := by
  rw [← h.lookup_layout]
  exact ⟨lookup_of_mem (h.layout_once layer), mem_of_lookup⟩

theorem layout_keyed {entry : Cell × String} (he : entry ∈ b.layout layer) : entry.1.Keyed := by
  obtain ⟨⟨c, id⟩, hi, rfl⟩ := List.mem_map.mp he
  exact h.keyed layer c id hi

theorem contents_eq (layer : Layer) : b.contents layer = .ok (b.layout layer) := by
  refine mapM_eq_ok fun ⟨c, id⟩ hi => ?_
  obtain ⟨e, known, rfl, _⟩ := h.stands layer c id hi
  rw [entity_of_entity? known, type?_of_find? (h.find?_eq_some_iff.mpr hi) known]
  rfl

end Sound

theorem Redraw.type? (h : Redraw book b b') (layer : Layer) (cell : Cell) :
    b'.type? layer cell = b.type? layer cell := by
  cases h with
  | tile => exact type?_setFragments b _ _ cell

theorem Redraws.type? (h : Redraws book b b') (layer : Layer) (cell : Cell) :
    b'.type? layer cell = b.type? layer cell := by
  induction h with
  | refl => rfl
  | tail _ last ih => rw [last.type?, ih]

theorem Redraws.layout (h : Redraws book b b') (layer : Layer) :
    b'.layout layer = b.layout layer := by
  induction h with
  | refl => rfl
  | tail _ last ih => rw [layout_congr (last.index layer) (last.type? layer), ih]

section Arrival

variable (h : b.Sound) {type : String} {order : List EntityId}
include h

theorem Sound.type?_inserted (free : b.find? layer cell = none) (l : Layer) (c : Cell) :
    (b.insert layer cell type).type? l c =
      if l = layer ∧ c = cell then some type else b.type? l c := by
  by_cases here : l = layer ∧ c = cell
  · obtain ⟨rfl, rfl⟩ := here
    rw [if_pos ⟨rfl, rfl⟩]
    have found : (b.insert l c type).find? l c = some b.nextId := by
      rw [find?_insert, free, if_pos rfl]
      rfl
    have known := entity?_insert h.next_unused l c type b.nextId
    rw [if_pos rfl] at known
    exact type?_of_find? found known
  · rw [if_neg here]
    exact type?_insert h here

theorem Sound.type?_arrived (free : b.find? layer cell = none) (l : Layer) (c : Cell) :
    (b.arrived layer cell type order).type? l c =
      if l = layer ∧ c = cell then some type else b.type? l c :=
  (type?_setOrder _ order c).trans (h.type?_inserted free l c)

end Arrival

section Departure

variable (h : b.Sound)
include h

theorem Sound.type?_withdrawn (found : b.find? layer cell = some id) (l : Layer) (c : Cell) :
    (b.withdrawn layer cell id).type? l c =
      if l = layer ∧ c = cell then none else b.type? l c := by
  by_cases here : l = layer ∧ c = cell
  · obtain ⟨rfl, rfl⟩ := here
    rw [if_pos ⟨rfl, rfl⟩]
    refine type?_eq_none (Option.eq_none_iff_forall_ne_some.mpr fun j hj => ?_)
    have left := (h.withdrawn found).find?_eq_some_iff.mp hj
    exact (mem_index_withdrawn.mp left).2 rfl rfl
  · rw [if_neg here]
    exact Board.type?_withdrawn h found here

end Departure

theorem type?_clear (b : Board) (layer : Layer) (cell : Cell) :
    b.clear.type? layer cell = none := by
  refine type?_eq_none ?_
  rw [find?, index_clear]
  rfl

theorem Redraws.blocks (h : Redraws book b b') (l : Layer) (c : Cell) :
    b'.blocks l c = b.blocks l c := by
  induction h with
  | refl => rfl
  | tail _ last ih =>
    rw [← ih]
    cases l <;> simp only [Board.blocks, find?, last.index]

/-- The fragments of the tile at a cell, whether or not the cell has a key. -/
def fragments? (b : Board) (cell : Cell) : Option (List Fragment) :=
  ((b.find? .tile cell).bind b.entity?).map (·.fragments)

theorem Sound.fragmentsAt_eq (h : b.Sound) (cell : Cell) :
    b.fragmentsAt cell = (fun _ => b.fragments? cell) <$> cell.checkKey := by
  unfold fragmentsAt idAt fragments?
  cases cell.checkKey with
  | error fault => rfl
  | ok u =>
    cases hf : b.find? .tile cell with
    | none => rfl
    | some id =>
      obtain ⟨e, he, _⟩ := h.entity?_of_find? hf
      change (do return some (← b.entity id).fragments) = _
      rw [entity_of_entity? he, Option.bind_some, he]
      rfl

theorem Drawn.fragments?_congr (h : b.Drawn book) (h' : b'.Drawn book)
    (types : ∀ c, b'.type? .tile c = b.type? .tile c) (cell : Cell) :
    b'.fragments? cell = b.fragments? cell := by
  have looks : b'.typeAt .tile = b.typeAt .tile := by
    funext c
    rw [h.sound.typeAt_eq, h'.sound.typeAt_eq, types]
  have both : (b'.find? .tile cell).isSome = (b.find? .tile cell).isSome := by
    rw [← h.sound.isSome_type?, ← h'.sound.isSome_type?, types]
  unfold fragments?
  cases found : b.find? .tile cell with
  | none =>
    have absent : b'.find? .tile cell = none := by simpa [found] using both
    rw [absent]
    rfl
  | some id =>
    rw [found] at both
    obtain ⟨id', found'⟩ := Option.isSome_iff_exists.mp both
    obtain ⟨e, known, hc, _⟩ := h.sound.entity?_of_find? found
    obtain ⟨e', known', hc', _⟩ := h'.sound.entity?_of_find? found'
    have composed := h.drawn cell id e (h.sound.find?_eq_some_iff.mp found) (fun no => no) known
    have composed' := h'.drawn cell id' e' (h'.sound.find?_eq_some_iff.mp found') (fun no => no)
      known'
    have type : e'.type = e.type := by
      have same := types cell
      rw [type?_of_find? found known, type?_of_find? found' known'] at same
      exact Option.some.inj same
    unfold Board.composed at composed composed'
    rw [looks, type, hc', ← hc, composed] at composed'
    rw [found', Option.bind_some, Option.bind_some, known, known']
    exact congrArg some (Except.ok.inj composed').symm

end Autotile.Board
