import Stylesheet.Node.Basic
import Stylesheet.Token.Run

/-!
# Nodes over runs

A node that was read from a run of tokens is located over the run, from the start of its
first token to the end of its last, when locations are recorded at all.  They are
recorded under the name of the source; without a name no node has a location.
-/

namespace Stylesheet

/-- The name under which locations are recorded, if they are. -/
abbrev SourceName := Option String

namespace Location

/-- The range between two positions. -/
def between (source : SourceName) (start stop : Position) : Option Location :=
  source.map fun name => ⟨name, start, stop⟩

/-- The range of a run; an empty run has none. -/
def ofRun (source : SourceName) (run : List Token) : Option Location :=
  match run.head?, run.getLast? with
  | some first, some last => between source first.start last.stop
  | _, _ => none

end Location

namespace Node

/-- A node located over a run. -/
def spanning (source : SourceName) (run : List Token) (construct : Construct Node) : Node :=
  ⟨construct, Location.ofRun source run⟩

/-- A node located over one token. -/
def ofToken (source : SourceName) (token : Token) (construct : Construct Node) : Node :=
  ⟨construct, Location.between source token.start token.stop⟩

/-- A run kept as it is written. -/
def rawRun (source : SourceName) (run : List Token) : Node :=
  spanning source run (.raw (Run.text run))

end Node

end Stylesheet
