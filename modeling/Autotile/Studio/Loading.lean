import Autotile.Json.Encoding
import Autotile.Studio.Editing

/-! Saving the map and loading it. A saved map names the type at each cell by the cell's key,
tiles and objects apart. -/
namespace Autotile

structure SavedMap where
  tiles : List (Cell × String)
  objects : List (Cell × String)
  deriving DecidableEq, Repr

namespace SavedMap

def sectionDatum (contents : List (Cell × String)) : Datum :=
  .record (contents.map fun entry => (entry.1.key, .text entry.2))

def toDatum (saved : SavedMap) : Datum :=
  .record [(Layer.tile.sectionName, sectionDatum saved.tiles),
    (Layer.object.sectionName, sectionDatum saved.objects)]

end SavedMap

def Board.save (b : Board) : Except Fault SavedMap := do
  return { tiles := ← b.contents .tile, objects := ← b.contents .object }

namespace Datum

/-- Text and bytes are JSON; anything else stands for itself. -/
def parsed : Datum → Except Fault Datum
  | .text s => (Json.read s).mapError .json
  | .bytes bs => do
    let cs ← (Json.decode bs).mapError .decode
    (Json.readChars Json.depthLimit cs).mapError .json
  | other => .ok other

def toMap : Datum → Except Fault (List (String × Datum))
  | .record entries => .ok entries
  | _ => .error .mapNotRecord

/-- The entries of a layer's section. A section that is absent or blank is empty. -/
def toSection (layer : Layer) (entries : List (String × Datum)) :
    Except Fault (List (String × Datum)) :=
  let given := Datum.entry layer.sectionName entries
  if given.isBlank then .ok []
  else match given with
    | .record contents => .ok contents
    | _ => .error (.sectionNotRecord layer)

end Datum

structure Tally where
  added : Nat := 0
  skipped : Nat := 0
  deriving DecidableEq, Repr

namespace Tally

def add (t : Tally) : Tally := { t with added := t.added + 1 }
def skip (t : Tally) : Tally := { t with skipped := t.skipped + 1 }

end Tally

namespace Desk

open Edit

/-- Entries without a type are passed over. One whose type is no text, whose key is malformed or
whose cell is taken is skipped. -/
def loadEntry (d : Desk) (layer : Layer) (tally : Tally) (key : String) (value : Datum) :
    Edit Tally := do
  match value with
  | .null => return tally
  | .text type =>
    if type.isEmpty then return tally
    match Cell.ofKey key with
    | .ok cell => return if (← d.add layer cell type).isSome then tally.add else tally.skip
    | .error fault =>
      if fault.isForm then
        note (.keySkipped layer fault)
        return tally.skip
      else throw (.key fault)
  | _ =>
    note (.typeSkipped layer key value)
    return tally.skip

def loadSection (d : Desk) (layer : Layer) (entries : List (String × Datum)) : Edit Tally :=
  entries.foldlM (fun tally entry => d.loadEntry layer tally entry.1 entry.2) {}

/-- Adds the entries of a saved map, tiles before objects since a tile fits under no object, and
answers how many there were. The form of the map is checked before the board is cleared. -/
def load (d : Desk) (data : Datum) (replace : Bool) : Edit Nat := do
  let entries ← consult fun _ => do (← data.parsed).toMap
  let tiles ← consult fun _ => Datum.toSection .tile entries
  let objects ← consult fun _ => Datum.toSection .object entries
  if replace then d.clear
  let tiles ← d.loadSection .tile tiles
  let objects ← d.loadSection .object objects
  d.publish (.loaded tiles.added objects.added (tiles.skipped + objects.skipped))
  return tiles.added + objects.added

def reload (d : Desk) (replace : Bool) : Edit Nat := do
  let saved ← consult Board.save
  d.load saved.toDatum replace

end Desk

end Autotile
