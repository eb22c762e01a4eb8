import Stylesheet.Mapping.Recorder
import Stylesheet.Node.Pieces
import Stylesheet.Text.Output

/-!
# Writing nodes

A writer puts the pieces of nodes into a growing text and tells a recorder, if it has
one, of the places where nodes start and end.
-/

namespace Stylesheet

structure Writer where
  output : Output
  recorder : Option Recorder
deriving DecidableEq, Repr

namespace Writer

/-- A writer that has written nothing. -/
def start (recorder : Option Recorder) : Writer := ⟨.empty, recorder⟩

/-- Writes one piece. -/
def piece (writer : Writer) : Piece -> Writer
  | .text text => { writer with output := writer.output.write text }
  | .enter node =>
      { writer with recorder := writer.recorder.map (·.enter node writer.output.place) }
  | .leave node =>
      { writer with recorder := writer.recorder.map (·.leave node writer.output.place) }

/-- Writes one node. -/
def node (writer : Writer) (node : Node) : Writer :=
  node.pieces.foldl piece writer

end Writer

end Stylesheet
