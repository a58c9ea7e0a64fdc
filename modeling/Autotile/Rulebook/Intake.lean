import Autotile.Atlas
import Autotile.Notice
import Autotile.Rulebook.Basic

/-! Reading catalogues of texture identifiers into a rulebook. A malformed identifier is
rejected and the reading goes on; an identifier that was accepted before is passed over. -/
namespace Autotile

/-- What has been read so far; rejections pair the identifier with the reason. -/
structure Catalogue where
  accepted : List Rule := []
  rejected : List (String × String) := []
  notices : List Notice := []
  deriving Inhabited

/-- A failed reading keeps what was read before. -/
abbrev Intake := EStateM Fault Catalogue

namespace Catalogue

def holds (c : Catalogue) (name : String) : Bool := c.accepted.any (·.name = name)

def accept (rule : Rule) (c : Catalogue) : Catalogue := { c with accepted := c.accepted ++ [rule] }

def rejectionNotice (identifier : Datum) (fault : RuleFault) : Notice :=
  match identifier with
  | .text name =>
    if Rule.looksLikeIdentifier name then .malformedIdentifier fault else .notIdentifier identifier
  | _ => .notIdentifier identifier

def reject (identifier : Datum) (fault : RuleFault) (c : Catalogue) : Catalogue :=
  { c with
    rejected := c.rejected ++ [(identifier.plain, fault.message)]
    notices := c.notices ++ [rejectionNotice identifier fault] }

def isAccepted (c : Catalogue) : Datum → Bool
  | .text name => c.holds name
  | _ => false

end Catalogue

namespace Intake

def add (identifier : Datum) : Intake Unit := do
  if !identifier.isKey then throw .wrongKind
  if (← get).isAccepted identifier then return
  match Rule.ofDatum identifier with
  | .ok rule => modify (Catalogue.accept rule)
  | .error (.malformed fault) => modify (Catalogue.reject identifier fault)
  | .error fault => throw (.ofIdentifier fault)

def addList : List Datum → Intake Unit
  | [] => pure ()
  | identifier :: rest => do
    add identifier
    addList rest

def addAll (identifiers : Datum) : Intake Unit :=
  match identifiers.members? with
  | some members => addList members
  | none => throw .wrongKind

def addSheet (sheet : Datum) : Intake Unit :=
  match sheet with
  | .record entries =>
    match (entries.lookup "frames").getD (.record []) with
    | .record frames => addList (frames.map fun frame => .text frame.1)
    | _ => throw .framesNotRecord
  | _ => throw .notRecord

def addTopFaces (types : List String) : Intake Unit := addSheet (Atlas.sheet types)

theorem addTopFaces_eq (types : List String) :
    addTopFaces types = addList ((Atlas.frames types).map fun frame => .text frame.1) := by
  have names : (((Atlas.frames types).map fun frame => (frame.1, frame.2.toDatum)).map
      fun frame => Datum.text frame.1) = (Atlas.frames types).map fun frame => .text frame.1 :=
    List.map_map
  exact congrArg addList names

def build : Intake Rulebook := do
  let c ← get
  let book := Rulebook.ofRules c.accepted
  let notice := Notice.rulebookBuilt book.size book.types.length c.rejected.length
  set { c with notices := c.notices ++ [notice] }
  return book

def buildFrom (identifiers : Datum) : Intake Rulebook := do
  addAll identifiers
  build

def buildStandard (identifiers : Datum) : Intake Rulebook := do
  addTopFaces Atlas.standardTypes
  addAll identifiers
  build

end Intake

end Autotile
