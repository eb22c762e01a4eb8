import Stylesheet.Json.Basic
import Stylesheet.Node.Basic

/-!
# Trees as plain objects

A node is written as an object with its type, its fields and its location when it has
one, all in the order of their keys.  An optional field without a value is null.
-/

namespace Stylesheet
namespace Plain

/-- The object of a position. -/
def encodePosition (position : Position) : Json :=
  .object [("column", .int position.column), ("line", .int position.line),
    ("offset", .int position.offset)]

/-- The object of a location. -/
def encodeLocation (location : Location) : Json :=
  .object [("end", encodePosition location.stop), ("sourceName", .string location.sourceName),
    ("start", encodePosition location.start)]

/-- A text, or null. -/
def encodeText? : Option String -> Json
  | none => .null
  | some text => .string text

/-- An object of a type with its fields, which are given in the order of their keys. -/
def tagged (type : NodeType) (location : Option Location) (fields : List (String × Json)) :
    Json :=
  .object (Json.insertField? "location" (location.map encodeLocation)
    (Json.insertField "type" (.string type.name) fields))

mutual

/-- The object of a node. -/
def encode : Node -> Json
  | ⟨construct, location⟩ => tagged construct.type location (encodeFields construct)

/-- The fields of a construct, in the order of their keys. -/
def encodeFields : Construct Node -> List (String × Json)
  | .styleSheet nodes => [("children", encodeAll nodes)]
  | .atRule name prelude body =>
      [("block", encode? body), ("name", .string name), ("prelude", encode? prelude)]
  | .atRulePrelude nodes => [("children", encodeAll nodes)]
  | .rule prelude body => [("block", encode body), ("prelude", encode prelude)]
  | .block nodes => [("children", encodeAll nodes)]
  | .declarationList nodes => [("children", encodeAll nodes)]
  | .declaration important property content =>
      [("important", .bool important), ("property", .string property),
        ("value", encode content)]
  | .selectorList nodes => [("children", encodeAll nodes)]
  | .selector nodes => [("children", encodeAll nodes)]
  | .typeSelector name => [("name", .string name)]
  | .idSelector name => [("name", .string name)]
  | .classSelector name => [("name", .string name)]
  | .attributeSelector name matcher content flags =>
      [("flags", encodeText? flags), ("matcher", encodeText? matcher), ("name", .string name),
        ("value", encode? content)]
  | .pseudoClass name arguments =>
      [("children", encodeAll? arguments), ("name", .string name)]
  | .pseudoElement name arguments =>
      [("children", encodeAll? arguments), ("name", .string name)]
  | .combinator name => [("name", .string name)]
  | .nth formula filter => [("nth", encode formula), ("selector", encode? filter)]
  | .anPlusB a b => [("a", encodeText? a), ("b", encodeText? b)]
  | .value nodes => [("children", encodeAll nodes)]
  | .identifier name => [("name", .string name)]
  | .number value => [("value", .string value)]
  | .dimension value unit => [("unit", .string unit), ("value", .string value)]
  | .percentage value => [("value", .string value)]
  | .hash value => [("value", .string value)]
  | .string value => [("value", .string value)]
  | .url address => [("value", encode address)]
  | .unicodeRange value => [("value", .string value)]
  | .function name nodes => [("children", encodeAll nodes), ("name", .string name)]
  | .parentheses nodes => [("children", encodeAll nodes)]
  | .brackets nodes => [("children", encodeAll nodes)]
  | .operator value => [("value", .string value)]
  | .whiteSpace value => [("value", .string value)]
  | .comment value => [("value", .string value)]
  | .raw value => [("value", .string value)]
  | .mediaQueryList nodes => [("children", encodeAll nodes)]
  | .mediaQuery nodes => [("children", encodeAll nodes)]
  | .mediaFeature name content => [("name", .string name), ("value", encode? content)]
  | .ratio left right => [("left", .string left), ("right", .string right)]
  | .cdo => []
  | .cdc => []

/-- The array of nodes. -/
def encodeAll (nodes : List Node) : Json :=
  .array (encodeItems nodes)

def encodeItems : List Node -> List Json
  | [] => []
  | node :: rest => encode node :: encodeItems rest

/-- The object of a node, or null. -/
def encode? : Option Node -> Json
  | none => .null
  | some node => encode node

/-- The array of nodes, or null. -/
def encodeAll? : Option (List Node) -> Json
  | none => .null
  | some nodes => encodeAll nodes

end

/-- Whether two trees are the same, locations included. -/
def same (left right : Node) : Bool :=
  encode left == encode right

end Plain
end Stylesheet
