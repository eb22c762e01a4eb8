import Stylesheet.Json.Read
import Stylesheet.Node.Basic

/-!
# Reading plain objects

Reading goes over a tree twice.  The first time only types are looked at: every type that
is a text must be known, wherever it stands, except inside a location.  The second time
the tree is read.  Of one node the location comes first, then the type, then the fields
that are present in the order of their keys, and last the fields that are missing.  A
location and a position may also be rows.
-/

namespace Stylesheet

/-- Why a plain tree is no tree of a stylesheet. -/
inductive TreeError where
  | unknownType (name : String)
  | malformed (problem : Json.Problem)
deriving Repr

namespace TreeError

def message : TreeError -> String
  | unknownType name => "Unknown node type: " ++ name
  | malformed problem => "Malformed node: " ++ problem.text

end TreeError

namespace Plain

/-! ## Types -/

/-- The type of an object, when it is a text. -/
def ownTag? (fields : List (String × Json)) : Option String :=
  match Json.field? "type" fields with
  | some (.string tag) => some tag
  | _ => none

mutual

/-- The types in a tree, in the order in which they are looked at. -/
def typeTags : Json -> List String
  | .object fields => (ownTag? fields).toList ++ fieldTags fields
  | .array items => itemTags items
  | _ => []

def itemTags : List Json -> List String
  | [] => []
  | item :: rest => typeTags item ++ itemTags rest

/-- The types under the keys of an object; a location is passed over. -/
def fieldTags : List (String × Json) -> List String
  | [] => []
  | (key, value) :: rest =>
      if key = "location" then fieldTags rest else typeTags value ++ fieldTags rest

end

/-- The first type in a tree that is not known. -/
def unknownTag? (tree : Json) : Option String :=
  (typeTags tree).find? fun tag => !NodeType.isKnown tag

/-! ## Locations -/

open Json (Problem Surplus readText readFlag readIndex readField? readNullable required)

def readPosition (surplus : Surplus) : Json -> Except Problem Position
  | .object fields => do
      let column ← readField? fields "column" readIndex
      let line ← readField? fields "line" readIndex
      let offset ← readField? fields "offset" readIndex
      let line ← required "line" line
      let column ← required "column" column
      let offset ← required "offset" offset
      return ⟨line, column, offset⟩
  | .array row => do
      let line ← Json.readElement "Position" 3 row 0 readIndex
      let column ← Json.readElement "Position" 3 row 1 readIndex
      let offset ← Json.readElement "Position" 3 row 2 readIndex
      Json.endRow surplus 3 row
      return ⟨line, column, offset⟩
  | other => .error (.wrongType other (.record "Position"))

def readLocation (surplus : Surplus) : Json -> Except Problem Location
  | .object fields => do
      let stop ← readField? fields "end" (readPosition surplus)
      let sourceName ← readField? fields "sourceName" readText
      let start ← readField? fields "start" (readPosition surplus)
      let sourceName ← required "sourceName" sourceName
      let start ← required "start" start
      let stop ← required "end" stop
      return ⟨sourceName, start, stop⟩
  | .array row => do
      let sourceName ← Json.readElement "Location" 3 row 0 readText
      let start ← Json.readElement "Location" 3 row 1 (readPosition surplus)
      let stop ← Json.readElement "Location" 3 row 2 (readPosition surplus)
      Json.endRow surplus 3 row
      return ⟨sourceName, start, stop⟩
  | other => .error (.wrongType other (.record "Location"))

/-! ## Nodes -/

/-- Reads the type of a node: its name, or its number. -/
def readType (fields : List (String × Json)) : Except Problem NodeType :=
  match Json.field? "type" fields with
  | none => .error (.missing "type")
  | some (.string name) =>
      match NodeType.ofName? name with
      | some type => .ok type
      | none => .error (.wrongType (.string name) .typeName)
  | some (.int number) =>
      if number < 0 then
        .error (.wrongType (.int number) .typeName)
      else
        match NodeType.all[number.toNat]? with
        | some type => .ok type
        | none => .error (.outOfRange number .typeIndex)
  | some other => .error (.wrongType other .typeName)

/-- A reader of nodes that reads only values smaller than the fields of an object. -/
abbrev ChildReader (fields : List (String × Json)) :=
  (value : Json) -> sizeOf value < sizeOf fields -> Except Problem Node

/-- A field that is a node. -/
def readNode? {fields : List (String × Json)} (child : ChildReader fields) (key : String) :
    Except Problem (Option Node) :=
  match h : Json.field? key fields with
  | none => .ok none
  | some value => (child value (Json.sizeOf_lt_of_field? h)).map some

/-- A field that is a node or null. -/
def readNullableNode {fields : List (String × Json)} (child : ChildReader fields)
    (key : String) : Except Problem (Option Node) :=
  match h : Json.field? key fields with
  | none => .ok none
  | some .null => .ok none
  | some value => (child value (Json.sizeOf_lt_of_field? h)).map some

/-- The nodes of an array. -/
def readItems {fields : List (String × Json)} (child : ChildReader fields)
    (items : List Json) (h : sizeOf items < sizeOf fields) : Except Problem (List Node) :=
  items.attach.mapM fun ⟨item, hmem⟩ =>
    child item (Nat.lt_trans (List.sizeOf_lt_of_mem hmem) h)

/-- The nodes of a value that has to be an array. -/
def readNodes {fields : List (String × Json)} (child : ChildReader fields)
    (value : Json) (h : sizeOf value < sizeOf fields) : Except Problem (List Node) :=
  match value, h with
  | .array items, h => readItems child items (by simp at h; omega)
  | other, _ => .error (.wrongType other .sequence)

/-- A field that is an array of nodes. -/
def readNodes? {fields : List (String × Json)} (child : ChildReader fields) (key : String) :
    Except Problem (Option (List Node)) :=
  match h : Json.field? key fields with
  | none => .ok none
  | some value => (readNodes child value (Json.sizeOf_lt_of_field? h)).map some

/-- A field that is an array of nodes or null. -/
def readNullableNodes {fields : List (String × Json)} (child : ChildReader fields)
    (key : String) : Except Problem (Option (List Node)) :=
  match h : Json.field? key fields with
  | none => .ok none
  | some .null => .ok none
  | some value => (readNodes child value (Json.sizeOf_lt_of_field? h)).map some

/-- A construct that has nothing but children. -/
def readList {fields : List (String × Json)} (child : ChildReader fields)
    (build : List Node -> Construct Node) : Except Problem (Construct Node) := do
  let children ← readNodes? child "children"
  let children ← required "children" children
  return build children

/-- A construct that has nothing but a name. -/
def readNamed (fields : List (String × Json)) (build : String -> Construct Node) :
    Except Problem (Construct Node) := do
  let name ← readField? fields "name" readText
  let name ← required "name" name
  return build name

/-- A construct that has nothing but a value. -/
def readValued (fields : List (String × Json)) (build : String -> Construct Node) :
    Except Problem (Construct Node) := do
  let value ← readField? fields "value" readText
  let value ← required "value" value
  return build value

/-- A construct that has a name and children that may be null. -/
def readPseudo {fields : List (String × Json)} (child : ChildReader fields)
    (build : String -> Option (List Node) -> Construct Node) :
    Except Problem (Construct Node) := do
  let children ← readNullableNodes child "children"
  let name ← readField? fields "name" readText
  let name ← required "name" name
  return build name children

/-- Reads the construct of a type. -/
def readConstruct {fields : List (String × Json)} (child : ChildReader fields) :
    NodeType -> Except Problem (Construct Node)
  | .styleSheet => readList child .styleSheet
  | .atRule => do
      let block ← readNullableNode child "block"
      let name ← readField? fields "name" readText
      let prelude ← readNullableNode child "prelude"
      let name ← required "name" name
      return .atRule name prelude block
  | .atRulePrelude => readList child .atRulePrelude
  | .rule => do
      let block ← readNode? child "block"
      let prelude ← readNode? child "prelude"
      let prelude ← required "prelude" prelude
      let block ← required "block" block
      return .rule prelude block
  | .block => readList child .block
  | .declarationList => readList child .declarationList
  | .declaration => do
      let important ← readField? fields "important" readFlag
      let property ← readField? fields "property" readText
      let value ← readNode? child "value"
      let property ← required "property" property
      let value ← required "value" value
      return .declaration (important.getD false) property value
  | .selectorList => readList child .selectorList
  | .selector => readList child .selector
  | .typeSelector => readNamed fields .typeSelector
  | .idSelector => readNamed fields .idSelector
  | .classSelector => readNamed fields .classSelector
  | .attributeSelector => do
      let flags ← readNullable fields "flags" readText
      let matcher ← readNullable fields "matcher" readText
      let name ← readField? fields "name" readText
      let value ← readNullableNode child "value"
      let name ← required "name" name
      return .attributeSelector name matcher value flags
  | .pseudoClass => readPseudo child .pseudoClass
  | .pseudoElement => readPseudo child .pseudoElement
  | .combinator => readNamed fields .combinator
  | .nth => do
      let nth ← readNode? child "nth"
      let selector ← readNullableNode child "selector"
      let nth ← required "nth" nth
      return .nth nth selector
  | .anPlusB => do
      let a ← readNullable fields "a" readText
      let b ← readNullable fields "b" readText
      return .anPlusB a b
  | .value => readList child .value
  | .identifier => readNamed fields .identifier
  | .number => readValued fields .number
  | .dimension => do
      let unit ← readField? fields "unit" readText
      let value ← readField? fields "value" readText
      let value ← required "value" value
      let unit ← required "unit" unit
      return .dimension value unit
  | .percentage => readValued fields .percentage
  | .hash => readValued fields .hash
  | .string => readValued fields .string
  | .url => do
      let value ← readNode? child "value"
      let value ← required "value" value
      return .url value
  | .unicodeRange => readValued fields .unicodeRange
  | .function => do
      let children ← readNodes? child "children"
      let name ← readField? fields "name" readText
      let name ← required "name" name
      let children ← required "children" children
      return .function name children
  | .parentheses => readList child .parentheses
  | .brackets => readList child .brackets
  | .operator => readValued fields .operator
  | .whiteSpace => readValued fields .whiteSpace
  | .comment => readValued fields .comment
  | .raw => readValued fields .raw
  | .mediaQueryList => readList child .mediaQueryList
  | .mediaQuery => readList child .mediaQuery
  | .mediaFeature => do
      let name ← readField? fields "name" readText
      let value ← readNullableNode child "value"
      let name ← required "name" name
      return .mediaFeature name value
  | .ratio => do
      let left ← readField? fields "left" readText
      let right ← readField? fields "right" readText
      let left ← required "left" left
      let right ← required "right" right
      return .ratio left right
  | .cdo => return .cdo
  | .cdc => return .cdc

/-- Reads a tree whose types are known; in its children the length of a row is counted. -/
def readTree (surplus : Surplus) : Json -> Except Problem Node
  | .object fields => do
      let location ← readNullable fields "location" (readLocation surplus)
      let type ← readType fields
      let construct ← @readConstruct fields (fun value _h => readTree .counted value) type
      return ⟨construct, location⟩
  | other => .error (.wrongType other (.record "Node"))
termination_by tree => sizeOf tree
decreasing_by
  simp
  omega

/-- Reads a tree. -/
def decode (tree : Json) : Except TreeError Node :=
  match unknownTag? tree with
  | some name => .error (.unknownType name)
  | none =>
      match readTree .unspecified tree with
      | .ok node => .ok node
      | .error problem => .error (.malformed problem)

end Plain
end Stylesheet
