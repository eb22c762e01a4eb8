import Stylesheet.AnPlusB
import Stylesheet.Command.Arguments
import Stylesheet.Command.FileTree
import Stylesheet.Command.Help
import Stylesheet.Command.Path
import Stylesheet.Command.Run
import Stylesheet.Declaration
import Stylesheet.Generate
import Stylesheet.Json.Basic
import Stylesheet.Json.Read
import Stylesheet.Json.Text
import Stylesheet.Main
import Stylesheet.Mapping.Basic
import Stylesheet.Mapping.Decoding
import Stylesheet.Mapping.Encoding
import Stylesheet.Mapping.Recorder
import Stylesheet.Mapping.Vlq
import Stylesheet.Media
import Stylesheet.Node.Basic
import Stylesheet.Node.OverRun
import Stylesheet.Node.Pieces
import Stylesheet.Node.Render
import Stylesheet.Options
import Stylesheet.ParseError
import Stylesheet.Plain.Decode
import Stylesheet.Plain.Encode
import Stylesheet.Proofs.Mapping.Decoding
import Stylesheet.Proofs.Mapping.Recording
import Stylesheet.Proofs.Mapping.Vlq
import Stylesheet.Proofs.Node.Pieces
import Stylesheet.Proofs.Node.Preorder
import Stylesheet.Proofs.Node.Starts
import Stylesheet.Proofs.Node.Traced
import Stylesheet.Proofs.Text.Place
import Stylesheet.Proofs.Text.Split
import Stylesheet.Proofs.Token.Run
import Stylesheet.Proofs.Token.Branch
import Stylesheet.Proofs.Token.Named
import Stylesheet.Proofs.Token.Scan
import Stylesheet.Proofs.Token.Spelling
import Stylesheet.Proofs.Token.Tiling
import Stylesheet.Proofs.Value.Derivation
import Stylesheet.Selector
import Stylesheet.Sheet
import Stylesheet.SourceMap
import Stylesheet.Text.Character
import Stylesheet.Text.Output
import Stylesheet.Text.Place
import Stylesheet.Text.Printable
import Stylesheet.Text.Split
import Stylesheet.Token.Basic
import Stylesheet.Token.Lexeme
import Stylesheet.Token.Name
import Stylesheet.Token.Numeral
import Stylesheet.Token.Run
import Stylesheet.Token.Stream
import Stylesheet.Value
import Stylesheet.Writer
import Stylesheet.Proofs.Origin.Components
import Stylesheet.Proofs.Origin.Selector
import Stylesheet.Proofs.Origin.Sheet
import Stylesheet.Proofs.Mapping.Faithful
import Stylesheet.Proofs.RoundTrip
import Stylesheet.Proofs.Token.Truncation.Lexeme
import Stylesheet.Proofs.Token.Seamless
import Stylesheet.Proofs.Moved.Runs
import Stylesheet.Proofs.Token.Cuts
import Stylesheet.Proofs.Moved.Readers
import Stylesheet.Proofs.Moved.Sheet
import Stylesheet.Proofs.Node.Written
import Stylesheet.Proofs.Token.Brackets
import Stylesheet.Proofs.Reread.Components
import Stylesheet.Proofs.Token.Similar
import Stylesheet.Proofs.Reread.Trivia
import Stylesheet.Proofs.Reread.Commas
import Stylesheet.Proofs.Reread.Media
import Stylesheet.Plain.Generate
import Stylesheet.Proofs.Plain.Tidy
import Stylesheet.Proofs.Token.Lossless
import Stylesheet.Proofs.Unlocated
import Stylesheet.Proofs.Token.Extension.Name
import Stylesheet.Proofs.Token.Extension.Numeral
import Stylesheet.Proofs.Token.Extension.Lexeme
import Stylesheet.Proofs.Token.Extension.Opening
import Stylesheet.Proofs.Token.Neighbours
import Stylesheet.Proofs.Value.Squeezed
import Stylesheet.Proofs.Value.Minified
import Stylesheet.Proofs.Mapping.WellFormed
import Stylesheet.Proofs.Mapping.Unmapped
import Stylesheet.Proofs.Shape.Basic
import Stylesheet.Proofs.Shape.Components
import Stylesheet.Proofs.Shape.Selector
import Stylesheet.Proofs.Shape.Sheet
import Stylesheet.Proofs.Token.Marks
import Stylesheet.Proofs.Token.Joints
import Stylesheet.Proofs.Selector.Kept
import Stylesheet.Proofs.Selector.Minified
import Stylesheet.Proofs.Range.Basic
import Stylesheet.Proofs.Range.Row
import Stylesheet.Proofs.Range.Placed
import Stylesheet.Proofs.Range.Components
import Stylesheet.Proofs.Range.Selector
import Stylesheet.Proofs.Range.Items
import Stylesheet.Proofs.Range.Sheet
import Stylesheet.Proofs.Range.Tree
import Stylesheet.Proofs.Range.Located
import Stylesheet.Proofs.Range.Verbatim
import Stylesheet.Proofs.Range.Nested
import Stylesheet.Proofs.Range.Filled
import Stylesheet.Proofs.Command.Files
import Stylesheet.Proofs.Command.Steps
import Stylesheet.Proofs.Plain.Visits
import Stylesheet.Proofs.Command.Modes
import Stylesheet.Proofs.Canonical.Syntax
import Stylesheet.Proofs.Canonical.Words
import Stylesheet.Proofs.Canonical.Components
import Stylesheet.Proofs.Canonical.Declaration
import Stylesheet.Proofs.Canonical.Selector
import Stylesheet.Proofs.Canonical.Sheet
import Stylesheet.Proofs.Cursor.Agreement
import Stylesheet.Proofs.Command.Failures
import Stylesheet.Proofs.Mapping.Stretches
import Stylesheet.Proofs.Node.Chunks
import Stylesheet.Proofs.Mapping.Told
import Stylesheet.Proofs.Token.Unclosed
import Stylesheet.Proofs.Token.Failures
import Stylesheet.Proofs.Token.Alone
import Stylesheet.Proofs.Token.Grammar
import Stylesheet.Proofs.Value.Walk
import Stylesheet.Proofs.Selector.Parts
import Stylesheet.Proofs.AnPlusB.Notation
import Stylesheet.Proofs.AnPlusB.Spaces
import Stylesheet.Proofs.Selector.Position
import Stylesheet.Proofs.Token.Parts
import Stylesheet.Proofs.Media.Grammar
import Stylesheet.Proofs.Reshaped.Mended
import Stylesheet.Proofs.Mapping.Words
import Stylesheet.Proofs.Value.Spacing
import Stylesheet.Proofs.Sheet.Culprits
import Stylesheet.Proofs.Token.Groups
import Stylesheet.Proofs.Reread.Position
import Stylesheet.Proofs.Reread.Selector
import Stylesheet.Proofs.Reread.Declaration
import Stylesheet.Proofs.Reread.Items
import Stylesheet.Proofs.Reread.Sheet
import Stylesheet.Proofs.Reread.Overruns
import Stylesheet.Proofs.Reread.Text
