import Autotile.Picking
import Autotile.Studio.Editing

/-! The brush. A tile brush adds a tile next to the face it is applied to; an object brush puts an
object on the tile; the removing brush takes the object away or, where there is none, the tile. -/
namespace Autotile.Desk

open Edit

def brush : Edit Brush := do
  match (← get).brush with
  | some brush => return brush
  | none => throw .noBrush

def select (d : Desk) (mode type : Datum) : Edit Brush := do
  let _ ← brush
  let mode ← consult fun _ => mode.toMode
  if mode ≠ .remove && type.isBlank then throw (.brushNeedsType mode)
  let selected : Brush := { mode, type := if mode = .remove then .null else type }
  modify fun s => { s with brush := some selected }
  d.publish (.brushChanged selected.mode selected.type)
  brush

def apply (d : Desk) (cell : Datum) (side : Path) : Edit Bool := do
  let brush ← brush
  let cell ← consult fun _ => cell.toCell
  match brush.mode with
  | .tile => return (← d.addGiven .tile (.cell (cell.move side)) brush.type).isSome
  | .object => return (← d.addGiven .object (.cell cell) brush.type).isSome
  | .remove =>
    match ← consult (·.typeAt .object cell) with
    | some _ => d.remove .object cell
    | none => d.remove .tile cell

def applyGiven (d : Desk) (cell side : Datum) : Edit Bool := do
  let _ ← brush
  let side ← consult fun _ => side.toPath
  d.apply cell side

def click (d : Desk) (cell x y : Datum) : Edit Unit := do
  match ← consult fun _ => Sprite.pickAt x y with
  | some side => let _ ← d.apply cell [side]
  | none => return

end Autotile.Desk
