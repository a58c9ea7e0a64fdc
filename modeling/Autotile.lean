import Autotile.Atlas
import Autotile.Board.Basic
import Autotile.Board.Reading
import Autotile.Bus
import Autotile.Cascade
import Autotile.Cell.Basic
import Autotile.Cell.Depth
import Autotile.Cell.Direction
import Autotile.Cell.Key
import Autotile.Choice
import Autotile.Command
import Autotile.Datum.Basic
import Autotile.Datum.Reading
import Autotile.Datum.Written
import Autotile.Event
import Autotile.Fault
import Autotile.Fragment
import Autotile.Json.Encoding
import Autotile.Json.Reader
import Autotile.Json.Writer
import Autotile.Layer
import Autotile.Notice
import Autotile.Numeral.Binary64
import Autotile.Numeral.Decimal
import Autotile.Numeral.Integer
import Autotile.Palette
import Autotile.Payload
import Autotile.Picking
import Autotile.Proofs.Atlas.Coverage
import Autotile.Proofs.Atlas.Demands
import Autotile.Proofs.Atlas.Layout
import Autotile.Proofs.Atlas.Names
import Autotile.Proofs.Board.Aging
import Autotile.Proofs.Board.Drawing
import Autotile.Proofs.Board.Layering
import Autotile.Proofs.Board.Layout
import Autotile.Proofs.Board.Moves
import Autotile.Proofs.Board.Ranking
import Autotile.Proofs.Board.Reading
import Autotile.Proofs.Board.Renumbering
import Autotile.Proofs.Board.Soundness
import Autotile.Proofs.Bus.Delivery
import Autotile.Proofs.Bus.Growth
import Autotile.Proofs.Bus.Signals
import Autotile.Proofs.Cell.Canonical
import Autotile.Proofs.Cell.Depth
import Autotile.Proofs.Cell.Key
import Autotile.Proofs.Cell.Nearness
import Autotile.Proofs.Cell.RoundTrip
import Autotile.Proofs.Cell.Rounding
import Autotile.Proofs.Cell.Spelling
import Autotile.Proofs.Choice.Composition
import Autotile.Proofs.Choice.Kinship
import Autotile.Proofs.Choice.Locality
import Autotile.Proofs.Choice.Readings
import Autotile.Proofs.Choice.Selection
import Autotile.Proofs.Choice.Specificity
import Autotile.Proofs.Datum.Reading
import Autotile.Proofs.Ending
import Autotile.Proofs.Fault
import Autotile.Proofs.Numeral.Order
import Autotile.Proofs.Numeral.Reading
import Autotile.Proofs.Numeral.Rounding
import Autotile.Proofs.Numeral.Sums
import Autotile.Proofs.Picking.Faces
import Autotile.Proofs.Picking.Outline
import Autotile.Proofs.Rule.Completeness
import Autotile.Proofs.Rule.Escapes
import Autotile.Proofs.Rule.Grammar
import Autotile.Proofs.Rule.NormalForm
import Autotile.Proofs.Rule.Reading
import Autotile.Proofs.Rule.Soundness
import Autotile.Proofs.Rulebook.Feeding
import Autotile.Proofs.Rulebook.Grouping
import Autotile.Proofs.Rulebook.Growing
import Autotile.Proofs.Rulebook.Indexing
import Autotile.Proofs.Sprite
import Autotile.Proofs.Studio.Addressing
import Autotile.Proofs.Studio.Atomicity
import Autotile.Proofs.Studio.BackToFront
import Autotile.Proofs.Studio.Brushing
import Autotile.Proofs.Studio.Clearing
import Autotile.Proofs.Studio.Commands
import Autotile.Proofs.Studio.Correspondence
import Autotile.Proofs.Studio.Drawing
import Autotile.Proofs.Studio.Evolution
import Autotile.Proofs.Studio.Failure
import Autotile.Proofs.Studio.Headroom
import Autotile.Proofs.Studio.LoadFailure
import Autotile.Proofs.Studio.Merging
import Autotile.Proofs.Studio.Mirror
import Autotile.Proofs.Studio.Moves
import Autotile.Proofs.Studio.Notifications
import Autotile.Proofs.Studio.Outcome
import Autotile.Proofs.Studio.Painting
import Autotile.Proofs.Studio.Pieces
import Autotile.Proofs.Studio.Placing
import Autotile.Proofs.Studio.Preview
import Autotile.Proofs.Studio.Publications
import Autotile.Proofs.Studio.Reentrancy
import Autotile.Proofs.Studio.Refinement
import Autotile.Proofs.Studio.Renumbering
import Autotile.Proofs.Studio.Replacing
import Autotile.Proofs.Studio.Replica
import Autotile.Proofs.Studio.Representation
import Autotile.Proofs.Studio.SaveLoad
import Autotile.Proofs.Studio.Selecting
import Autotile.Proofs.Studio.Settling
import Autotile.Proofs.Studio.Straying
import Autotile.Proofs.Studio.Ties
import Autotile.Proofs.Studio.Undoing
import Autotile.Proofs.Text.Fields
import Autotile.Rule.Basic
import Autotile.Rule.Identifier
import Autotile.Rulebook.Basic
import Autotile.Rulebook.Intake
import Autotile.Sprite
import Autotile.Studio.Basic
import Autotile.Studio.Brushing
import Autotile.Studio.Editing
import Autotile.Studio.Loading
import Autotile.Studio.Requests
import Autotile.Studio.Running
import Autotile.Studio.Session
import Autotile.Text.Blank
import Autotile.Text.CodePoint
import Autotile.Text.DecimalDigit
import Autotile.Text.Fields
import Autotile.Text.Quoted
import Autotile.Text.Visible
