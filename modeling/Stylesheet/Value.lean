import Stylesheet.Node.OverRun

/-!
# Values

A value is a list of components: words, numbers, strings and operators, and groups of
components in brackets.  Comments count as whitespace.  Whitespace is normalised on
every level: none at the ends, one piece between two components at most, and none beside
an operator that needs none.  A run is a list of components exactly when its brackets
are balanced and it holds no token that only a stylesheet can hold.
-/

namespace Stylesheet
namespace Value

/-! ## Whitespace between components -/

/-- The operators that need no whitespace around them. -/
def tightOperators : List String :=
  [",", "/", "*", ":", "="]

/-- Whether a node is an operator that needs no whitespace around it. -/
def isTight (node : Node) : Bool :=
  match node.construct with
  | .operator operator => tightOperators.contains operator
  | _ => false

/-- The first whitespace of a run, when it stands between two nodes that need it. -/
def gap (before : Option Node) (space : Option Node) (after : Node) : List Node :=
  match before, space with
  | some before, some space => if isTight before || isTight after then [] else [space]
  | _, _ => []

/--
Normalises the whitespace of a list of nodes that comes behind a node, with the first
whitespace that has been passed since.
-/
def normalizeAfter (before : Option Node) (space : Option Node) : List Node -> List Node
  | [] => []
  | node :: rest =>
      if node.isWhiteSpace then
        normalizeAfter before (space.orElse fun _ => some node) rest
      else
        gap before space node ++ node :: normalizeAfter (some node) none rest

/-- Normalises the whitespace of a list of nodes. -/
def normalize (nodes : List Node) : List Node :=
  normalizeAfter none none nodes

/-! ## Components -/

/-- The construct of a component that is one token. -/
def single? (source : SourceName) (token : Token) : Option (Construct Node) :=
  match token.kind with
  | .whitespace => some (.whiteSpace " ")
  | .comment _ => some (.whiteSpace " ")
  | .ident name => some (.identifier name)
  | .number value => some (.number value)
  | .percentage value => some (.percentage value)
  | .dimension value unit => some (.dimension value unit)
  | .hash name => some (.hash name)
  | .string quoted => some (.string quoted)
  | .unicodeRange range => some (.unicodeRange range)
  | .url content => some (.url (Node.ofToken source token (.raw content)))
  | .comma => some (.operator ",")
  | .colon => some (.operator ":")
  | .delim c => some (.operator (String.singleton c))
  | _ => none

/-- Whether a token begins a group of components. -/
def opensGroup (token : Token) : Bool :=
  match token.kind with
  | .function _ => true
  | .leftParen => true
  | .leftBracket => true
  | _ => false

/-- The string of a list that is one string and nothing else. -/
def loneString? : List Node -> Option Node
  | [node] => if node.type == .string then some node else none
  | _ => none

/-- The construct of a group: a function with one string is an address if it is so named. -/
def group (opener : TokenKind) (children : List Node) : Construct Node :=
  match opener with
  | .function name =>
      match sameWord name "url", loneString? children with
      | true, some address => .url address
      | _, _ => .function name children
  | .leftBracket => .brackets children
  | _ => .parentheses children

/-- The components of a run with all of its whitespace, if it is a list of components. -/
def spacedComponents? (source : SourceName) : (run : List Token) -> Option (List Node)
  | [] => some []
  | token :: rest =>
      match single? source token with
      | some construct =>
          (spacedComponents? source rest).map (Node.ofToken source token construct :: ·)
      | none =>
          if opensGroup token then
            match _h : Run.splitGroup? 0 rest with
            | none => none
            | some ⟨content, closer, after⟩ =>
                match spacedComponents? source content with
                | none => none
                | some children =>
                    let node := Node.spanning source (token :: content ++ [closer])
                      (group token.kind (normalize children))
                    (spacedComponents? source after).map (node :: ·)
          else
            none
termination_by run => run.length
decreasing_by
  · simp
  · have := (Run.splitGroup?_lengths _h).1
    simp at this ⊢
    omega
  · have := (Run.splitGroup?_lengths _h).2
    simp at this ⊢
    omega

/-- The components of a run, if it is a list of components. -/
def components? (source : SourceName) (run : List Token) : Option (List Node) :=
  (spacedComponents? source run).map normalize

/-- The value of a declaration: components, or else the text as it is written. -/
def ofRun (source : SourceName) (run : List Token) : Node :=
  match components? source (Run.trim run) with
  | some children => Node.spanning source (Run.trim run) (.value children)
  | none => Node.rawRun source (Run.trim run)

end Value
end Stylesheet
