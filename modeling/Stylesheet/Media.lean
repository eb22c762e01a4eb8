import Stylesheet.Value

/-!
# Media queries and preludes

The prelude of an at-rule is a list of media queries when the rule asks for one and the
prelude is one; else it is a list of components, and else raw text.  A media query is a
row of words and features in parentheses; a feature has a name and possibly one value.
-/

namespace Stylesheet
namespace Media

/-! ## Features -/

/-- The construct of the value of a feature: a ratio of two numbers, or one plain word. -/
def featureValue? (run : List Token) : Option (Construct Node) :=
  match (Run.significant run).map Token.kind with
  | [.number left, .delim '/', .number right] => some (.ratio left right)
  | [.number value] => some (.number value)
  | [.dimension value unit] => some (.dimension value unit)
  | [.ident name] => some (.identifier name)
  | _ => none

/-- The construct of a feature, read from what stands between its parentheses. -/
def feature? (source : SourceName) (content : List Token) : Option (Construct Node) :=
  match Run.trim content with
  | ⟨.ident name, _, _⟩ :: rest =>
      match Run.trim rest with
      | [] => some (.mediaFeature name none)
      | colon :: value =>
          if colon.kind = .colon then
            (featureValue? (Run.trim value)).map fun construct =>
              .mediaFeature name (some (Node.spanning source (Run.trim value) construct))
          else
            none
  | _ => none

/-! ## Queries -/

/-- Adds a piece of whitespace behind a node that is not one; the latest node comes first. -/
def addSpace (space : Node) : List Node -> List Node
  | [] => []
  | last :: earlier => if last.isWhiteSpace then last :: earlier else space :: last :: earlier

/-- Removes a piece of whitespace from the end; the latest node comes first. -/
def dropSpace : List Node -> List Node
  | [] => []
  | last :: earlier => if last.isWhiteSpace then earlier else last :: earlier

/-- Reads the words and features of a query behind those read so far, the latest first. -/
def queryParts? (source : SourceName) (parts : List Node) :
    (run : List Token) -> Option (List Node)
  | [] => some (dropSpace parts).reverse
  | token :: rest =>
      match token.kind with
      | .whitespace | .comment _ =>
          queryParts? source (addSpace (Node.ofToken source token (.whiteSpace " ")) parts) rest
      | .ident name =>
          queryParts? source (Node.ofToken source token (.identifier name) :: parts) rest
      | .leftParen =>
          match _h : Run.splitGroup? 0 rest with
          | none => none
          | some ⟨content, closer, after⟩ =>
              match feature? source content with
              | none => none
              | some construct =>
                  let node := Node.spanning source (token :: content ++ [closer]) construct
                  queryParts? source (node :: parts) after
      | _ => none
termination_by run => run.length
decreasing_by
  all_goals simp
  have := (Run.splitGroup?_lengths _h).2
  simp at this ⊢
  omega

/-- A media query; there is none in an empty run. -/
def query? (source : SourceName) (run : List Token) : Option Node :=
  if run.isEmpty then none
  else (queryParts? source [] run).map fun parts => Node.spanning source run (.mediaQuery parts)

/-- A list of media queries between commas. -/
def queryList? (source : SourceName) (run : List Token) : Option Node :=
  ((Run.splitTopLevel (· == .comma) 0 run).mapM fun part => query? source (Run.trim part)).map
    fun queries => Node.spanning source run (.mediaQueryList queries)

/-! ## Preludes -/

/-- Whether an at-rule of that name asks for media queries. -/
def takesQueries (name : String) : Bool :=
  sameWord name "media" || sameWord name "custom-media"

/-- The nodes of a prelude that is not empty. -/
def preludeNodes (source : SourceName) (name : String) (run : List Token) : List Node :=
  let queries := if takesQueries name then queryList? source run else none
  match queries with
  | some list => [list]
  | none => (Value.components? source run).getD [Node.rawRun source run]

/-- The prelude of an at-rule, unless there is none. -/
def prelude? (source : SourceName) (name : String) (run : List Token) : Option Node :=
  let run := Run.trim run
  if run.isEmpty then none
  else some (Node.spanning source run (.atRulePrelude (preludeNodes source name run)))

end Media
end Stylesheet
