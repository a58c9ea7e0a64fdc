import Autotile.Cascade
import Autotile.Rulebook.Intake
import Autotile.Studio.Running

/-! Editing sessions. Commands are run one after another; each is answered with its result and
with what was published and logged meanwhile. A cue is run as soon as its event is recorded,
within the edit that published it. -/
namespace Autotile

namespace Studio

def waiting (s : Studio) : Nat := Command.weights (s.cues.map (·.2))

end Studio

def takeCue (event : String) : Edit (Option Command) := modifyGet fun s =>
  match s.cues.find? (·.1 = event) with
  | some cue => (some cue.2, { s with cues := s.cues.eraseP (·.1 = event) })
  | none => (none, s)

/-- Runs the first cue of an event. Each cue that runs within another is taken from those that
wait, so a depth of their number is never used up. -/
def hearCues (book : Rulebook) (offsets : List Cell) : Nat → Event → Edit Unit
  | 0, _ => return
  | depth + 1, event => do
    match ← takeCue event.name with
    | some command => let _ ← command.run ⟨book, offsets, hearCues book offsets depth⟩
    | none => return

structure Report where
  answer : Except Fault Answer
  events : List Event
  notices : List Notice
  tileCount : Nat
  objectCount : Nat
  order : List EntityId

structure Session where
  book : Rulebook
  offsets : List Cell
  studio : Studio

namespace Session

/-- The desk at which the cues that wait, and at most `more` commands, are run. -/
def desk (s : Session) (more : Nat) : Desk :=
  ⟨s.book, s.offsets, hearCues s.book s.offsets (s.studio.waiting + more)⟩

def report (answer : Except Fault Answer) (s : Studio) : Report :=
  { answer
    events := s.events
    notices := s.notices
    tileCount := s.board.tiles.length
    objectCount := s.board.objects.length
    order := s.board.paintOrder }

def step (s : Session) (command : Command) : Report × Session :=
  let fresh := { s.studio with events := [], notices := [] }
  match command.run (s.desk command.weight) fresh with
  | .ok answer studio => (report (.ok answer) studio, { s with studio })
  | .error fault studio => (report (.error fault) studio, { s with studio })

def steps (s : Session) : List Command → List Report
  | [] => []
  | command :: commands =>
    let (report, s) := s.step command
    report :: s.steps commands

end Session

/-- What a session starts with: a map alone, a map and a brush, or the whole editor, which may
load a map at once. -/
inductive Setup where
  | map
  | brush
  | editor (data : Datum)

namespace Setup

def fixtures : Setup → Nat
  | .map => 1
  | _ => 2

def studio (setup : Setup) (notices : List Notice) : Studio :=
  { board := { fixtures := setup.fixtures }
    brush := match setup with
      | .map => none
      | _ => some {}
    notices }

def data? : Setup → Option Datum
  | .editor .null => none
  | .editor data => some data
  | _ => none

end Setup

namespace Session

/-- Starts a session, and reports what happened meanwhile. Unless the offsets are given, they are
those that the rulebook asks for. -/
def start (setup : Setup) (book : Rulebook) (offsets : Option (List Cell))
    (notices : List Notice) : Except Fault (Report × Session) :=
  let s : Session := ⟨book, offsets.getD book.cascadeOffsets, setup.studio notices⟩
  match setup.data? with
  | none => .ok (report (.ok .nothing) s.studio, s)
  | some data =>
    match (s.desk 0).load data true s.studio with
    | .ok _ studio => .ok (report (.ok .nothing) studio, { s with studio })
    | .error fault _ => .error fault

end Session

end Autotile
