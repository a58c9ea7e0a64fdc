import Autotile.Fault

/-! What the editor tells its log. -/
namespace Autotile

inductive Notice where
  | malformedIdentifier (fault : RuleFault)
  | notIdentifier (value : Datum)
  | rulebookBuilt (rules types rejected : Nat)
  | occupied (layer : Layer) (cell : Cell)
  | nothingThere (layer : Layer) (cell : Cell)
  | cascaded (cell : Cell) (updated : Nat)
  | typeSkipped (layer : Layer) (key : String) (value : Datum)
  | keySkipped (layer : Layer) (fault : KeyFault)
  | selectionIgnored (fault : Fault)

namespace Notice

def isRoutine : Notice → Bool
  | .notIdentifier _ | .rulebookBuilt .. | .cascaded .. => true
  | _ => false

def text : Notice → String
  | .malformedIdentifier fault => "Skipping malformed texture identifier: " ++ fault.message
  | .notIdentifier value => "Ignoring non-fragment asset " ++ value.written
  | .rulebookBuilt rules types rejected =>
    "Built rule registry: " ++ toString rules ++ " rules for " ++ toString types ++ " types (" ++
      toString rejected ++ " identifiers rejected)"
  | .occupied layer cell =>
    "Cannot add " ++ layer.name ++ " at " ++ cell.key ++ ": coordinate already occupied"
  | .nothingThere layer cell =>
    "Cannot remove " ++ layer.name ++ " at " ++ cell.key ++ ": nothing there"
  | .cascaded cell updated =>
    "Cascade from " ++ cell.key ++ " updated " ++ toString updated ++ " tile(s)"
  | .typeSkipped layer key value =>
    "Skipping " ++ layer.sectionName ++ " entry " ++ Text.quote key ++
      ": type must be a string, got " ++ value.written
  | .keySkipped layer fault => "Skipping " ++ layer.sectionName ++ " entry: " ++ fault.message
  | .selectionIgnored fault => "Ignoring brush selection: " ++ fault.message

def line (n : Notice) : String :=
  (if n.isRoutine then "DEBUG: " else "WARNING: ") ++ n.text

end Notice

end Autotile
