import Autotile.Proofs.Studio.Refinement
import Autotile.Proofs.Studio.Settling

/-! # What a load brings

A load fills the room that the plan of a map leaves with the types that its entries name, the first
for each cell. Every other entry that has a value is counted as skipped. -/
namespace Autotile

open Edit

namespace SavedMap

/-- The cell and the type that an entry names, if its key can be read and its value is a type. -/
def placement? (entry : String × Datum) : Option (Cell × String) :=
  match entry.2 with
  | .text type =>
    if type.isEmpty then none else (Cell.ofKey entry.1).toOption.map fun c => (c, type)
  | _ => none

def placements (entries : List (String × Datum)) : List (Cell × String) :=
  entries.filterMap placement?

def hasValue (entry : String × Datum) : Bool :=
  match entry.2 with
  | .null => false
  | .text type => !type.isEmpty
  | _ => true

end SavedMap

namespace Plan

def shut (L : Plan) : Layer → Cell → Bool
  | .tile, cell => (L .object cell).isSome
  | .object, _ => false

/-- The plan with a layer filled where there is room, the first type for a cell being taken. -/
def fill (L : Plan) (layer : Layer) (types : List (Cell × String)) : Plan := fun l c =>
  if l = layer ∧ L.shut layer c = false then (L l c).or (types.lookup c) else L l c

theorem fill_nil (L : Plan) (layer : Layer) : L.fill layer [] = L := by
  funext l c
  simp [fill]

theorem shut_fill (L : Plan) (layer : Layer) (types : List (Cell × String)) (cell : Cell) :
    (L.fill layer types).shut layer cell = L.shut layer cell := by
  cases layer <;> simp [shut, fill]

theorem fill_append (L : Plan) (layer : Layer) (xs ys : List (Cell × String)) :
    L.fill layer (xs ++ ys) = (L.fill layer xs).fill layer ys := by
  funext l c
  by_cases room : l = layer ∧ L.shut layer c = false
  · have room' : l = layer ∧ (L.fill layer xs).shut layer c = false := by rwa [shut_fill]
    rw [fill, if_pos room, List.lookup_append, ← Option.or_assoc]
    rw [fill, if_pos room', fill, if_pos room]
  · have room' : ¬(l = layer ∧ (L.fill layer xs).shut layer c = false) := by rwa [shut_fill]
    rw [fill, if_neg room, fill, if_neg room', fill, if_neg room]

/-- The plan after a load. A tile is put where nothing stands, an object where no object does. -/
def loaded (L : Plan) (tiles objects : List (Cell × String)) : Plan
  | .tile, cell => (L .tile cell).or (if (L .object cell).isSome then none else tiles.lookup cell)
  | .object, cell => (L .object cell).or (objects.lookup cell)

end Plan

/-- What loading entries into a layer of a map comes to: every one that has a value is added or
skipped, those that are added are at the end of the index, and the plan is filled. -/
structure Board.Brings (L : Plan) (layer : Layer) (entries : List (String × Datum))
    (before : Tally) (b : Board) (after : Tally) (b' : Board) : Prop where
  shows : b'.Shows (L.fill layer (SavedMap.placements entries))
  accounted : after.added + after.skipped =
    before.added + before.skipped + entries.countP SavedMap.hasValue
  arrived : (b'.index layer).length + before.added = (b.index layer).length + after.added
  others : ∀ l ≠ layer, b'.index l = b.index l

namespace Board.Brings

variable {L : Plan} {layer : Layer} {entries rest : List (String × Datum)}
  {before mid after : Tally}
  {a b c : Board}

theorem refl (shows : b.Shows L) : Brings L layer [] before b before b where
  shows := by
    rw [SavedMap.placements, List.filterMap_nil, Plan.fill_nil]
    exact shows
  accounted := rfl
  arrived := rfl
  others _ _ := rfl

theorem append (h : Brings L layer entries before a mid b)
    (h' : Brings (L.fill layer (SavedMap.placements entries)) layer rest mid b after c) :
    Brings L layer (entries ++ rest) before a after c where
  shows := by
    rw [SavedMap.placements, List.filterMap_append, Plan.fill_append]
    exact h'.shows
  accounted := by
    have first := h.accounted
    have second := h'.accounted
    rw [List.countP_append]
    omega
  arrived := by
    have first := h.arrived
    have second := h'.arrived
    omega
  others l hl := (h'.others l hl).trans (h.others l hl)

theorem idle {entry : String × Datum} (shows : b.Shows L)
    (unplaced : SavedMap.placement? entry = none) (added : after.added = before.added)
    (skipped : after.skipped = before.skipped + [entry].countP SavedMap.hasValue) :
    Brings L layer [entry] before b after b where
  shows := by
    rw [SavedMap.placements, List.filterMap_cons_none unplaced, List.filterMap_nil, Plan.fill_nil]
    exact shows
  accounted := by omega
  arrived := by omega
  others _ _ := rfl

end Board.Brings

namespace Desk

variable {d : Desk} {s : Studio} {L : Plan} (quiet : Quiet d.hear) (shows : s.board.Shows L)
include quiet shows

end Desk

namespace Board

variable {book : Rulebook} {offsets : List Cell}

end Board

end Autotile
