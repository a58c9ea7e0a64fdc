import Autotile.Rulebook.Basic
import Autotile.Sprite

/-! Choosing the texture of one fragment. Among the rules of the tile's own type the best one
that holds wins. If none holds, a corner of the top face is judged again without the constraint
on the cell above; if still none holds, the same is done with the rules of the tile's family. -/
namespace Autotile

variable {m : Type → Type} [Monad m]

/-- The type at each offset from a tile. Reading a cell may have an effect of its own: a fixed
surrounding has none, a map may be unable to name a cell. -/
abbrev Surroundings (m : Type → Type) := Cell → m (Option String)

def Surroundings.empty : Surroundings m := fun _ => pure none

structure Query where
  type : String
  slot : String
  elevation : Int := 0
  deriving Repr

/-- Constraints are judged in order up to the first that is not met. -/
def Rule.holds (around : Surroundings m) (q : Query) (ignoreUp : Bool) (r : Rule) : m Bool :=
  if r.admitsElevation q.elevation then
    r.constraints.allM fun c => do
      if ignoreUp && c.isUp then return true
      return c.met q.type (← around c.offset)
  else pure false

/-- The first rule of the highest score. -/
def best : List Rule → Option Rule
  | [] => none
  | r :: rs => some (rs.foldl (fun best r => if best.score < r.score then r else best) r)

inductive Stage where
  | strict
  | ignoreUp
  | family
  | familyIgnoreUp
  deriving DecidableEq, Repr

namespace Stage

def label? : Stage → Option String
  | .strict => none
  | .ignoreUp => some "ignore_up"
  | .family => some "family"
  | .familyIgnoreUp => some "family_ignore_up"

def penalty : Stage → Nat
  | .strict | .ignoreUp => 0
  | .family | .familyIgnoreUp => 1

end Stage

structure Choice where
  rule : Rule
  stage : Stage
  deriving DecidableEq, Repr

def Choice.score (c : Choice) : Int := (c.rule.score : Int) - c.stage.penalty

namespace Rulebook

/-- The best rule of a type, and whether the cell above had to be ignored. -/
def bestOf (b : Rulebook) (around : Surroundings m) (type : String) (q : Query) :
    m (Option (Rule × Bool)) := do
  let candidates := b.candidates type q.slot
  match best (← candidates.filterM (Rule.holds around q false)) with
  | some rule => return some (rule, false)
  | none =>
    if Sprite.upperCorners.contains q.slot then
      match best (← candidates.filterM (Rule.holds around q true)) with
      | some rule => return some (rule, true)
      | none => return none
    else return none

def choose (b : Rulebook) (around : Surroundings m) (q : Query) : m (Option Choice) := do
  match ← b.bestOf around q.type q with
  | some (rule, ignoredUp) => return some ⟨rule, if ignoredUp then .ignoreUp else .strict⟩
  | none =>
    if family q.type = q.type then return none
    match ← b.bestOf around (family q.type) q with
    | some (rule, ignoredUp) => return some ⟨rule, if ignoredUp then .familyIgnoreUp else .family⟩
    | none => return none

end Rulebook

end Autotile
