import Autotile.Proofs.Lookup
import Autotile.Proofs.Sprite

/-! # The layout of the atlas

A name that is given again takes the later place, so what is kept is a choice among the frames as
they were given. A place is given to one frame only: the fixed rows lie above the bands, two rows
make a band, and a type keeps to its column. Hence two names never share a pixel, whichever of its
places each of them is left with. -/
namespace Autotile.Atlas

theorem Spot.eq_of {s t : Spot} (column : s.column = t.column) (row : s.row = t.row) : s = t := by
  cases s
  cases t
  exact (Spot.mk.injEq ..).mpr ⟨column, row⟩

inductive Stands (type : String) (neighbors : List String) : String → Spot → Prop
  | fixed {slot constraints : String} {spot : Spot}
      (frame : (slot, constraints, spot) ∈ fixedFrames) :
      Stands type neighbors (frameName type slot constraints) spot
  | band {slot direction rest : String} {spot : Spot} {n : Nat} {neighbor : String}
      (frame : (slot, direction, rest, spot) ∈ neighborFrames)
      (nth : neighbors[n]? = some neighbor) :
      Stands type neighbors (frameName type slot (neighborConstraints direction neighbor rest))
        ⟨spot.column, neighborTop + 2 * n + spot.row⟩

namespace Stands

variable {type name name' : String} {neighbors : List String} {spot spot' : Spot}

theorem fixed_place : ∀ f ∈ fixedFrames, f.2.2.column < 4 ∧ f.2.2.row < neighborTop := by
  decide

theorem band_place : ∀ f ∈ neighborFrames, f.2.2.2.column < 4 ∧ f.2.2.2.row < 2 := by
  decide

theorem fixed_unique : ∀ f ∈ fixedFrames, ∀ g ∈ fixedFrames, f.2.2 = g.2.2 → f = g := by
  decide

theorem band_unique : ∀ f ∈ neighborFrames, ∀ g ∈ neighborFrames, f.2.2.2 = g.2.2.2 → f = g := by
  decide

theorem column_lt (h : Stands type neighbors name spot) : spot.column < 4 := by
  cases h with
  | fixed frame => exact (fixed_place _ frame).1
  | band frame => exact (band_place _ frame).1

theorem row_lt (h : Stands type neighbors name spot) :
    spot.row < neighborTop + 2 * neighbors.length := by
  cases h with
  | fixed frame =>
    have above := (fixed_place _ frame).2
    dsimp only at above
    omega
  | band frame nth =>
    have low := (band_place _ frame).2
    have listed := (List.getElem?_eq_some_iff.mp nth).1
    dsimp only at low ⊢
    omega

theorem unique (h : Stands type neighbors name spot) (h' : Stands type neighbors name' spot')
    (same : spot = spot') : name = name' := by
  cases h with
  | fixed frame =>
    have above := (fixed_place _ frame).2
    cases h' with
    | fixed frame' =>
      cases fixed_unique _ frame _ frame' same
      rfl
    | band =>
      have rows := congrArg Spot.row same
      dsimp only at above rows
      omega
  | @band slot direction rest spot n neighbor frame nth =>
    have low := (band_place _ frame).2
    cases h' with
    | fixed frame' =>
      have above := (fixed_place _ frame').2
      have rows := congrArg Spot.row same
      dsimp only at above rows
      omega
    | @band slot' direction' rest' spot' n' neighbor' frame' nth' =>
      have low' := (band_place _ frame').2
      obtain ⟨columns, rows⟩ := Spot.mk.inj same
      dsimp only at low low'
      obtain rfl : n = n' := by omega
      have spots : spot = spot' := Spot.eq_of columns (by omega)
      cases band_unique _ frame _ frame' spots
      cases nth.symm.trans nth'
      rfl

end Stands

theorem spots_stand {type : String} {neighbors : List String} {f : String × Spot}
    (h : f ∈ spots type neighbors) : Stands type neighbors f.1 f.2 := by
  rcases mem_foldl_setEntry h with given | none
  · rcases List.mem_append.mp given with fixed | band
    · obtain ⟨⟨slot, constraints, spot⟩, frame, rfl⟩ := List.mem_map.mp fixed
      exact .fixed frame
    · obtain ⟨frames, hframes, hf⟩ := List.mem_flatten.mp band
      obtain ⟨n, listed, rfl⟩ := List.mem_mapIdx.mp hframes
      obtain ⟨⟨slot, direction, rest, spot⟩, frame, rfl⟩ := List.mem_map.mp hf
      exact .band frame (List.getElem?_eq_getElem listed)
  · cases none

theorem rectAt_eq (n : Nat) (spot : Spot) :
    rectAt n spot = square (4 * n + spot.column) spot.row := by
  simp only [rectAt, square, columnWidth, Sprite.fragmentSize, Rect.mk.injEq, and_true]
  omega

theorem frames_stand {types : List String} {f : String × Rect} (h : f ∈ frames types) :
    ∃ n type spot, types[n]? = some type ∧ Stands type types f.1 spot ∧
      f.2 = square (4 * n + spot.column) spot.row := by
  rcases mem_foldl_setEntry h with given | none
  · obtain ⟨column, hcolumn, hf⟩ := List.mem_flatten.mp given
    obtain ⟨n, listed, rfl⟩ := List.mem_mapIdx.mp hcolumn
    obtain ⟨frame, hframe, rfl⟩ := List.mem_map.mp hf
    exact ⟨n, types[n], frame.2, List.getElem?_eq_getElem listed, spots_stand hframe,
      rectAt_eq n frame.2⟩
  · cases none

/-- Every name has one rectangle, of the size of a fragment and on the sheet, and the rectangles of
two names share no pixel. -/
theorem layout_sound (types : List String) :
    ((frames types).map Prod.fst).Nodup ∧
      (∀ f ∈ frames types, ∀ g ∈ frames types, f.1 ≠ g.1 → f.2.Apart g.2) ∧
      ∀ f ∈ frames types, f.2.w = 8 ∧ f.2.h = 8 ∧
        f.2.Inside (sheetWidth types) (sheetHeight types) := by
  refine ⟨nodup_keys_foldl_setEntry List.nodup_nil, ?_, ?_⟩
  · intro f hf g hg names
    obtain ⟨n, type, spot, nth, stands, rect⟩ := frames_stand hf
    obtain ⟨n', type', spot', nth', stands', rect'⟩ := frames_stand hg
    rw [rect, rect']
    refine square_apart fun ⟨column, row⟩ => names ?_
    have left := stands.column_lt
    have left' := stands'.column_lt
    obtain rfl : n = n' := by omega
    cases nth.symm.trans nth'
    exact stands.unique stands' (Spot.eq_of (by omega) row)
  · intro f hf
    obtain ⟨n, type, spot, nth, stands, rect⟩ := frames_stand hf
    rw [rect]
    refine ⟨rfl, rfl, ?_⟩
    have listed := (List.getElem?_eq_some_iff.mp nth).1
    have left := stands.column_lt
    have low := stands.row_lt
    have width : sheetWidth types = (4 * types.length) * Sprite.fragmentSize := by
      simp only [sheetWidth, columnWidth, Sprite.fragmentSize]
      omega
    have height : sheetHeight types =
        (neighborTop + 2 * types.length) * Sprite.fragmentSize := by
      simp only [sheetHeight, neighborTop, Sprite.fragmentSize]
      omega
    rw [width, height]
    exact square_inside (by omega) low

end Autotile.Atlas
