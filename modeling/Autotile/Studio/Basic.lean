import Autotile.Board.Reading
import Autotile.Command
import Autotile.Notice

/-! The state of an editing session, and the setting in which edits are carried out. -/
namespace Autotile

/-- The selected brush: what it does, and the type it puts. -/
structure Brush where
  mode : Mode := .tile
  type : Datum := .text "rock"

/-- The board, the brush if there is one, and what was published and logged so far. A cue is a
command that waits for an event. -/
structure Studio where
  board : Board
  brush : Option Brush := none
  events : List Event := []
  notices : List Notice := []
  cues : List (String × Command) := []

/-- An edit that fails leaves the state as it was at that point. -/
abbrev Edit := EStateM Fault Studio

namespace Edit

def consult {α : Type} (f : Board → Except Fault α) : Edit α := fun s =>
  match f s.board with
  | .ok a => .ok a s
  | .error fault => .error fault s

def alter (f : Board → Board) : Edit Unit := modify fun s => { s with board := f s.board }

def note (notice : Notice) : Edit Unit :=
  modify fun s => { s with notices := s.notices ++ [notice] }

def record (event : Event) : Edit Unit := modify fun s => { s with events := s.events ++ [event] }

end Edit

/-- What edits work with: the rulebook, the offsets of the cells that are composed anew around
an edited cell, and whoever hears what is published. -/
structure Desk where
  book : Rulebook
  offsets : List Cell
  hear : Event → Edit Unit

/-- An event is recorded and then heard, before the edit that published it goes on. -/
def Desk.publish (d : Desk) (event : Event) : Edit Unit := do
  Edit.record event
  d.hear event

end Autotile
