import Stylesheet.Json.Read
import Stylesheet.Json.Text
import Stylesheet.Mapping.Encoding

/-!
# Source maps

A source map is a record that is written as JSON.  Its fields are written in a fixed
order, and the two that may be absent are left out when they are.
-/

namespace Stylesheet

/-- What text to generate beside the stylesheet, and how a map describes itself. -/
structure GenerateOptions where
  sourceMap : Bool := false
  file : Option String := none
  sourceRoot : Option String := none
deriving DecidableEq, Repr

structure SourceMap where
  version : Nat
  sources : List String
  names : List String
  mappings : String
  file : Option String
  sourceRoot : Option String
deriving DecidableEq, Repr

namespace SourceMap

/-- The revision of the format that is written. -/
def revision : Nat := 3

/-- The map of recorded mappings; no names are ever recorded. -/
def assemble (sources : List String) (mappings : List Mapping) (options : GenerateOptions) :
    SourceMap :=
  ⟨revision, sources, [], Mapping.encode mappings, options.file, options.sourceRoot⟩

/-- A field that is left out when it is absent. -/
def optionalField (key : String) : Option String -> List (String × Json)
  | none => []
  | some value => [(key, .string value)]

/-- The record of a map. -/
def toJson (map : SourceMap) : Json :=
  .object ([
    ("version", .int map.version),
    ("sources", .array (map.sources.map .string)),
    ("names", .array (map.names.map .string)),
    ("mappings", .string map.mappings)] ++
    optionalField "file" map.file ++ optionalField "sourceRoot" map.sourceRoot)

/-- The text of a map. -/
def text (map : SourceMap) : String :=
  map.toJson.compact

/-- Reads the fields of a map. -/
def ofFields (fields : List (String × Json)) : Except Json.Problem SourceMap := do
  let file ← Json.readNullable fields "file" Json.readText
  let mappings ← Json.readField? fields "mappings" Json.readText
  let names ← Json.readField? fields "names" (Json.readSequence Json.readText)
  let sourceRoot ← Json.readNullable fields "sourceRoot" Json.readText
  let sources ← Json.readField? fields "sources" (Json.readSequence Json.readText)
  let version ← Json.readField? fields "version" Json.readByte
  let version ← Json.required "version" version
  let sources ← Json.required "sources" sources
  let names ← Json.required "names" names
  let mappings ← Json.required "mappings" mappings
  return ⟨version, sources, names, mappings, file, sourceRoot⟩

/-- Reads the fields of a map from a row, which may end before the last two. -/
def ofRow (row : List Json) : Except Json.Problem SourceMap := do
  let version ← Json.readElement "SourceMap" 6 row 0 Json.readByte
  let sources ← Json.readElement "SourceMap" 6 row 1 (Json.readSequence Json.readText)
  let names ← Json.readElement "SourceMap" 6 row 2 (Json.readSequence Json.readText)
  let mappings ← Json.readElement "SourceMap" 6 row 3 Json.readText
  let file ← Json.readElement? row 4 (Json.readUnlessNull Json.readText)
  let sourceRoot ← Json.readElement? row 5 (Json.readUnlessNull Json.readText)
  Json.endRow .unspecified 6 row
  return ⟨version, sources, names, mappings, file.join, sourceRoot.join⟩

/-- Reads a map. -/
def ofJson : Json -> Except Json.Problem SourceMap
  | .object fields => ofFields fields
  | .array row => ofRow row
  | other => .error (.wrongType other (.record "SourceMap"))

/-- The comment by which a stylesheet names its map. -/
def comment (url : String) : String :=
  "/*# sourceMappingURL=" ++ url ++ " */"

end SourceMap

end Stylesheet
