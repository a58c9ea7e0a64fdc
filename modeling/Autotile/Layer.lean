/-! The two layers of a map: tiles, and the objects that stand on them or alone. -/
namespace Autotile

inductive Layer where
  | tile | object
  deriving DecidableEq, Repr

namespace Layer

def name : Layer → String
  | .tile => "tile"
  | .object => "object"

def sectionName : Layer → String
  | .tile => "tiles"
  | .object => "objects"

end Layer

end Autotile
