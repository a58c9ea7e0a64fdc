import Mathlib.Logic.Relation
import Autotile.Proofs.Board.Drawing

/-! # What may happen to a board

Four moves make up whatever edits do to a board that nobody else touches meanwhile: a tile is
composed anew, an entity arrives and is painted, an entity leaves, or all leave at once. What
every move preserves, every history of such edits preserves. -/
namespace Autotile.Board

open Relation

variable {book : Rulebook} {b b' : Board} {layer : Layer} {cell : Cell} {id : EntityId}

/-- A tile takes the fragments that its rules choose for it. -/
inductive Redraw (book : Rulebook) (b : Board) : Board → Prop
  | tile {id : EntityId} {e : Entity} {fragments : List Fragment} (known : b.entity? id = some e)
      (onTile : e.layer = .tile) (composed : b.composed book e = .ok fragments) :
      Redraw book b (b.setFragments id fragments)

abbrev Redraws (book : Rulebook) : Board → Board → Prop := ReflTransGen (Redraw book)

def arrived (b : Board) (layer : Layer) (cell : Cell) (type : String) (order : List EntityId) :
    Board :=
  (b.insert layer cell type).setOrder order

/-- An order of the entities that a board has after an arrival. -/
def ArrivalOrder (b : Board) (layer : Layer) (cell : Cell) (type : String)
    (order : List EntityId) : Prop :=
  (b.insert layer cell type).sorted (b.insert layer cell type).indexed = .ok order

theorem mem_index_arrived {l : Layer} {c : Cell} {i : EntityId} {type : String}
    {order : List EntityId} : (c, i) ∈ (b.arrived layer cell type order).index l ↔
      (c, i) ∈ b.index l ∨ (l = layer ∧ c = cell ∧ i = b.nextId) := by
  unfold arrived
  rw [index_setOrder]
  exact mem_index_insert

inductive Move (book : Rulebook) (b : Board) : Board → Prop
  | redraw {b' : Board} (redrawn : Redraw book b b') : Move book b b'
  | arrive {layer : Layer} {cell : Cell} {type : String} {order : List EntityId}
      (free : b.blocks layer cell = false) (keyed : cell.Keyed) (named : type ≠ "")
      (sorted : b.ArrivalOrder layer cell type order) :
      Move book b (b.arrived layer cell type order)
  | leave {layer : Layer} {cell : Cell} {id : EntityId} (found : b.find? layer cell = some id) :
      Move book b (b.withdrawn layer cell id)
  | clear : Move book b b.clear

abbrev Moves (book : Rulebook) : Board → Board → Prop := ReflTransGen (Move book)

theorem Redraws.moves (h : Redraws book b b') : Moves book b b' :=
  ReflTransGen.mono (fun _ _ => Move.redraw) _ _ h

theorem Redraw.index (h : Redraw book b b') (layer : Layer) : b'.index layer = b.index layer := by
  cases h with
  | tile => exact index_setFragments b _ _ layer

theorem Redraw.indexed (h : Redraw book b b') : b'.indexed = b.indexed := by
  cases h with
  | tile => rfl

theorem Redraws.index (h : Redraws book b b') (layer : Layer) : b'.index layer = b.index layer := by
  induction h with
  | refl => rfl
  | tail _ last ih => rw [last.index, ih]

theorem rank_setFragments (b : Board) (id : EntityId) (fragments : List Fragment)
    (other : EntityId) : (b.setFragments id fragments).rank other = b.rank other := by
  unfold rank entity
  rw [entity?_setFragments]
  cases b.entity? other with
  | none => rfl
  | some e =>
    by_cases h : other = id
    · simp only [Option.map_some, if_pos h]
      rfl
    · simp only [Option.map_some, if_neg h]

theorem Redraw.sorted (h : Redraw book b b') (ids : List EntityId) :
    b'.sorted ids = b.sorted ids := by
  cases h with
  | @tile id _ fragments =>
    have ranks : (b.setFragments id fragments).rank = b.rank :=
      funext (rank_setFragments b id fragments)
    unfold Board.sorted
    rw [ranks]

theorem Redraws.sorted_indexed (h : Redraws book b b') :
    b'.sorted b'.indexed = b.sorted b.indexed := by
  induction h with
  | refl => rfl
  | tail _ last ih => rw [last.indexed, last.sorted, ih]

theorem Redraw.setOrder (h : Redraw book b b') (order : List EntityId) :
    Redraw book (b.setOrder order) (b'.setOrder order) := by
  cases h with
  | tile known onTile composed => exact .tile (b := b.setOrder order) known onTile composed

theorem Redraws.setOrder (h : Redraws book b b') (order : List EntityId) :
    Redraws book (b.setOrder order) (b'.setOrder order) :=
  h.lift (·.setOrder order) fun _ _ step => step.setOrder order

theorem Sound.arrived (h : b.Sound) (free : b.blocks layer cell = false) (keyed : cell.Keyed)
    {type : String} (named : type ≠ "") {order : List EntityId}
    (sorted : b.ArrivalOrder layer cell type order) :
    (b.arrived layer cell type order).Sound := by
  have unoccupied := find?_eq_none_of_blocks (Bool.not_eq_true _ ▸ free)
  exact (h.insert unoccupied keyed named).sorted sorted

theorem Move.sound (h : Move book b b') (hb : b.Sound) : b'.Sound := by
  cases h with
  | redraw redrawn =>
    cases redrawn with
    | tile => exact hb.setFragments _ _
  | arrive free keyed named sorted => exact hb.arrived free keyed named sorted
  | leave found => exact hb.withdrawn found
  | clear => exact hb.clear

theorem Moves.sound (h : Moves book b b') (hb : b.Sound) : b'.Sound := by
  induction h with
  | refl => exact hb
  | tail _ last ih => exact last.sound ih

theorem Moves.invariant {P : Board → Prop} (h : Moves book b b') (hb : b.Sound) (hp : P b)
    (step : ∀ b b', b.Sound → P b → Move book b b' → P b') : P b' := by
  induction h with
  | refl => exact hp
  | tail before last ih => exact step _ _ (Moves.sound before hb) ih last

end Autotile.Board
