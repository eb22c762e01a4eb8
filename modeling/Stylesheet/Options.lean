import Stylesheet.SourceMap
import Stylesheet.Sheet

/-!
# Reading options

Options are records whose fields may all be absent; a row of them may end early.  A text
may also be null; a flag may not.  Fields that an options record does not have are ignored.
-/

namespace Stylesheet

/-- Reads the options of the parser. -/
def ParseOptions.ofJson : Json -> Except Json.Problem ParseOptions
  | .object fields => do
      let filename ← Json.readNullable fields "filename" Json.readText
      let positions ← Json.readField? fields "positions" Json.readFlag
      return ⟨filename, positions.getD false⟩
  | .array row => do
      let filename ← Json.readElement? row 0 (Json.readUnlessNull Json.readText)
      let positions ← Json.readElement? row 1 Json.readFlag
      Json.endRow .unspecified 2 row
      return ⟨filename.join, positions.getD false⟩
  | other => .error (.wrongType other (.record "ParseOptions"))

/-- Reads the options of the generator. -/
def GenerateOptions.ofJson : Json -> Except Json.Problem GenerateOptions
  | .object fields => do
      let file ← Json.readNullable fields "file" Json.readText
      let sourceMap ← Json.readField? fields "sourceMap" Json.readFlag
      let sourceRoot ← Json.readNullable fields "sourceRoot" Json.readText
      return ⟨sourceMap.getD false, file, sourceRoot⟩
  | .array row => do
      let sourceMap ← Json.readElement? row 0 Json.readFlag
      let file ← Json.readElement? row 1 (Json.readUnlessNull Json.readText)
      let sourceRoot ← Json.readElement? row 2 (Json.readUnlessNull Json.readText)
      Json.endRow .unspecified 3 row
      return ⟨sourceMap.getD false, file.join, sourceRoot.join⟩
  | other => .error (.wrongType other (.record "GenerateOptions"))

end Stylesheet
