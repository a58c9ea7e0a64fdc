import Autotile.Rule.Basic

/-! The rulebook: rules by type, then by slot. The rules of one slot stand in the order of their
names, so the order in which a catalogue was read leaves no trace. -/
namespace Autotile

/-- Appends a value to the ones kept under a key; a new key goes to the end. -/
def appendAt {α : Type} (key : String) (value : α) : List (String × List α) → List (String × List α)
  | [] => [(key, [value])]
  | (k, vs) :: rest =>
    if k = key then (k, vs ++ [value]) :: rest else (k, vs) :: appendAt key value rest

def groupBy {α : Type} (key : α → String) (values : List α) : List (String × List α) :=
  values.foldl (fun groups v => appendAt (key v) v groups) []

def Rule.nameLE (a b : Rule) : Bool := a.name ≤ b.name

structure Rulebook where
  shelves : List (String × List (String × List Rule))
  deriving Repr

namespace Rulebook

def empty : Rulebook := ⟨[]⟩

/-- Sorts the rules of each slot by name. -/
def ofShelves (shelves : List (String × List (String × List Rule))) : Rulebook :=
  ⟨shelves.map fun shelf =>
    (shelf.1, shelf.2.map fun bucket => (bucket.1, bucket.2.mergeSort Rule.nameLE))⟩

def ofRules (rules : List Rule) : Rulebook :=
  ofShelves ((groupBy (·.type) rules).map fun shelf => (shelf.1, groupBy (·.slot) shelf.2))

def candidates (b : Rulebook) (type slot : String) : List Rule :=
  (((b.shelves.lookup type).getD []).lookup slot).getD []

def hasType (b : Rulebook) (type : String) : Bool := b.shelves.any (·.1 = type)

def types (b : Rulebook) : List String := (b.shelves.map (·.1)).mergeSort (· ≤ ·)

def rules (b : Rulebook) : List Rule :=
  (b.shelves.mergeSort fun x y => x.1 ≤ y.1).flatMap fun shelf =>
    (shelf.2.mergeSort fun x y => x.1 ≤ y.1).flatMap (·.2)

def size (b : Rulebook) : Nat := (b.shelves.flatMap fun shelf => shelf.2.flatMap (·.2)).length

def contains (b : Rulebook) (name : String) : Bool := b.rules.any (·.name = name)

/-- Offsets from an edited cell to the tiles whose rules may look at it, each once. -/
def dependencies (b : Rulebook) : List Cell :=
  b.shelves.foldl (fun seen shelf => shelf.2.foldl (fun seen bucket =>
    bucket.2.foldl (fun seen rule => rule.dependencies.foldl (fun seen c => seen.insert c) seen)
      seen) seen) []

end Rulebook

end Autotile
