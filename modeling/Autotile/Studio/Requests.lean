import Autotile.Studio.Brushing
import Autotile.Studio.Loading

/-! Requests: events from outside that the editor acts on. A request that lacks what it needs is
passed over. -/
namespace Autotile

inductive Request where
  | place (layer : Layer)
  | take (layer : Layer)
  | load
  | select
  | click
  deriving DecidableEq, Repr

namespace Request

def all : List Request :=
  [.place .tile, .take .tile, .place .object, .take .object, .load, .select, .click]

def name : Request → String
  | .place layer => layer.name ++ "_place_request"
  | .take layer => layer.name ++ "_remove_request"
  | .load => "map_load_request"
  | .select => "brush_selected"
  | .click => "tile_face_click"

def ofName? (text : String) : Option Request := all.find? (·.name = text)

@[simp] theorem ofName?_name (r : Request) : ofName? r.name = some r := by
  rcases r with ⟨_ | _⟩ | ⟨_ | _⟩ | _ | _ | _ <;> decide

def needsBrush : Request → Bool
  | .select | .click => true
  | _ => false

end Request

namespace Desk

open Edit

/-- A selection that fails for a value that was given is logged, and nobody else hears of it. -/
def trySelect (d : Desk) (mode type : Datum) : Edit Unit := do
  try
    let _ ← d.select mode type
  catch fault =>
    if fault.isValueFault then note (.selectionIgnored fault) else throw fault

def meetPlace (d : Desk) (layer : Layer) (p : Payload) : Edit Unit := do
  let cell := p.given "coordinate"
  let type := p.given "type_name"
  unless cell.isNull || type.isBlank do
    let _ ← d.addGiven layer cell type

def meetTake (d : Desk) (layer : Layer) (p : Payload) : Edit Unit := do
  let cell := p.given "coordinate"
  unless cell.isNull do
    let _ ← d.removeGiven layer cell

/-- A load replaces the map unless it is told not to. -/
def meetLoad (d : Desk) (p : Payload) : Edit Unit := do
  let data := p.given "data"
  let replace := (p.lookup "replace").getD (.flag true)
  unless data.isNull do
    let _ ← d.load data (!replace.isBlank)

def meetSelect (d : Desk) (p : Payload) : Edit Unit := do
  let mode := p.given "mode"
  unless mode.isNull do
    d.trySelect mode (p.given "type_name")

def meetClick (d : Desk) (p : Payload) : Edit Unit := do
  let cell := p.given "coordinate"
  let x := p.given "local_x"
  let y := p.given "local_y"
  unless cell.isNull || x.isNull || y.isNull do
    d.click cell x y

def meet (d : Desk) : Request → Payload → Edit Unit
  | .place layer => d.meetPlace layer
  | .take layer => d.meetTake layer
  | .load => d.meetLoad
  | .select => d.meetSelect
  | .click => d.meetClick

/-- Delivers an event from outside: a request is met, an event of a published name is passed on
to all who hear those, and nobody listens to any other. -/
def deliver (d : Desk) (name : String) (payload : Payload) : Edit Unit := do
  match Request.ofName? name with
  | some request =>
    if request.needsBrush && (← get).brush.isNone then return
    if payload.namesSender then throw .wrongKind
    d.meet request payload
  | none =>
    if Event.publishedNames.contains name then
      if payload.namesSender then throw .wrongKind
      d.publish (.relayed name payload)

/-- An event is named by a text; any other value that could be a name is nobody's event. -/
def emit (d : Desk) (event payload : Datum) : Edit Unit := do
  match payload with
  | .record entries =>
    if Payload.isReserved entries then throw .wrongKind
    match event with
    | .text name => d.deliver name (Payload.delivered entries)
    | other => if !other.isKey then throw .wrongKind
  | _ => throw .wrongKind

end Desk

end Autotile
