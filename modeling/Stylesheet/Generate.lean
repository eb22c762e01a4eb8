import Stylesheet.Node.Render
import Stylesheet.SourceMap
import Stylesheet.Writer

/-!
# Generating stylesheets

The text of a tree alone is its rendering.  With a source map the tree is written piece
by piece, so that the mappings are recorded at the places where the pieces go.
-/

namespace Stylesheet

/-- A generated stylesheet, and its map when one was asked for. -/
structure Generated where
  css : String
  map : Option SourceMap
deriving DecidableEq, Repr

/-- The text of a tree. -/
def generate (node : Node) : String :=
  node.render

/-- The text of a tree, and its map when the options ask for one. -/
def generateWith (options : GenerateOptions) (node : Node) : Generated :=
  let recorder := if options.sourceMap then some Recorder.empty else none
  let writer := (Writer.start recorder).node node
  ⟨writer.output.text,
    writer.recorder.map fun recorder =>
      SourceMap.assemble recorder.sources recorder.finish options⟩

end Stylesheet
