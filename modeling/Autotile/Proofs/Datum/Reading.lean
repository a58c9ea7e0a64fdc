import Autotile.Picking
import Autotile.Proofs.Fault
import Autotile.Studio.Loading

/-! # Reading given values

A value that is given may be read as a cell, a path, a type, a brush mode, a map or a point. Where
that fails, no entity is at fault. -/
namespace Autotile

def Fault.NamesNone : Fault → Prop
  | .noEntity _ => False
  | _ => True

theorem Datum.toCoordinate_namesNone (given coordinate : Datum) :
    FailsBy Fault.NamesNone (Datum.toCoordinate given coordinate) := by
  unfold toCoordinate
  split
  all_goals first
    | exact failsBy_ok _
    | exact failsBy_mapError (fun _ => trivial) _
    | exact failsBy_error trivial

theorem Datum.toCell_namesNone (given : Datum) : FailsBy Fault.NamesNone given.toCell := by
  unfold toCell
  split
  · exact failsBy_ok _
  · split
    · exact (toCoordinate_namesNone _ _).bind fun _ _ =>
        (toCoordinate_namesNone _ _).bind fun _ _ =>
          (toCoordinate_namesNone _ _).bind fun _ _ => failsBy_ok _
    · exact failsBy_error trivial

theorem Datum.toTypeName_namesNone (given : Datum) : FailsBy Fault.NamesNone given.toTypeName := by
  unfold toTypeName
  split
  · split
    · exact failsBy_error trivial
    · exact failsBy_ok _
  · exact failsBy_error trivial

theorem Datum.toMode_namesNone (given : Datum) : FailsBy Fault.NamesNone given.toMode := by
  unfold toMode
  split
  · exact failsBy_ok _
  · split
    · exact failsBy_ok _
    · exact failsBy_error trivial
  · exact failsBy_error trivial

theorem Datum.toDirection_namesNone (given : Datum) :
    FailsBy Fault.NamesNone given.toDirection := by
  unfold toDirection
  split
  · split
    · exact failsBy_ok _
    · exact failsBy_error trivial
  · exact failsBy_error trivial

theorem Datum.toPath_namesNone (given : Datum) : FailsBy Fault.NamesNone given.toPath := by
  unfold toPath
  split
  · exact FailsBy.mapM fun name _ => name.toDirection_namesNone
  · exact (toDirection_namesNone _).map _

theorem Datum.toMap_parsed_namesNone (data : Datum) :
    FailsBy Fault.NamesNone (do (← data.parsed).toMap) := by
  have parsed : FailsBy Fault.NamesNone data.parsed := by
    unfold parsed
    split
    · exact failsBy_mapError (fun _ => trivial) _
    · exact (failsBy_mapError (fun _ => trivial) _).bind fun _ _ =>
        failsBy_mapError (fun _ => trivial) _
    · exact failsBy_ok _
  apply parsed.bind
  intro value _
  unfold toMap
  split
  · exact failsBy_ok _
  · exact failsBy_error trivial

theorem Datum.toSection_namesNone (layer : Layer) (entries : List (String × Datum)) :
    FailsBy Fault.NamesNone (Datum.toSection layer entries) := by
  unfold toSection
  dsimp only
  split
  · exact failsBy_ok _
  · split
    · exact failsBy_ok _
    · exact failsBy_error trivial

theorem Number.ofDatum_namesNone (given : Datum) :
    FailsBy Fault.NamesNone (Number.ofDatum given) := by
  unfold ofDatum
  split
  all_goals first
    | exact failsBy_ok _
    | exact failsBy_error trivial

theorem Number.half_namesNone (x : Number) : FailsBy Fault.NamesNone x.half := by
  fun_cases half x
  · exact failsBy_ok _
  · exact failsBy_ok _
  · exact failsBy_error trivial

theorem Sprite.sideAt_namesNone (x y : Datum) : FailsBy Fault.NamesNone (Sprite.sideAt x y) := by
  have above : ∀ (x : Number) (border : Numeral.Binary64), FailsBy Fault.NamesNone (do
      let y ← Number.ofDatum y
      if y.le (.real border) then return Direction.up
      return if x.lt (.int 16) then .south else .east) := by
    intro x border
    apply (Number.ofDatum_namesNone y).bind
    intro y _
    by_cases top : y.le (.real border) = true
    · rw [if_pos top]
      exact failsBy_ok _
    · rw [if_neg top]
      exact failsBy_ok _
  apply (Number.ofDatum_namesNone x).bind
  intro x _
  by_cases left : x.lt (.int 16) = true
  · dsimp only
    rw [if_pos left]
    exact (x.half_namesNone.bind fun _ _ => failsBy_ok _).bind fun border _ => above x border
  · dsimp only
    rw [if_neg left]
    exact (x.half_namesNone.bind fun _ _ => failsBy_ok _).bind fun border _ => above x border

theorem Sprite.pickAt_namesNone (x y : Datum) : FailsBy Fault.NamesNone (Sprite.pickAt x y) := by
  have contains : FailsBy Fault.NamesNone (containsAt x y) := by
    apply (Number.ofDatum_namesNone y).bind
    intro y _
    by_cases met : edges.any (straddles y) = true
    · rw [if_pos met]
      exact (Number.ofDatum_namesNone x).bind fun _ _ => failsBy_ok _
    · rw [if_neg met]
      exact failsBy_ok _
  apply contains.bind
  intro inside _
  cases inside with
  | false => exact failsBy_ok _
  | true => exact (sideAt_namesNone x y).bind fun _ _ => failsBy_ok _

end Autotile
