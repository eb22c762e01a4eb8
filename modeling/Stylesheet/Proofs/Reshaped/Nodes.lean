import Stylesheet.Node.OverRun
import Stylesheet.Proofs.Reshaped.Runs

/-!
# Nodes of reshaped tokens

A function of nodes follows a function of tokens when it takes the node over a run to the node over
the reshaped run.
-/

namespace Stylesheet

/-- A construct with a function applied to its children. -/
def Construct.map {α β : Type} (f : α -> β) : Construct α -> Construct β
  | .styleSheet nodes => .styleSheet (nodes.map f)
  | .atRule name front body => .atRule name (front.map f) (body.map f)
  | .atRulePrelude nodes => .atRulePrelude (nodes.map f)
  | .rule front body => .rule (f front) (f body)
  | .block nodes => .block (nodes.map f)
  | .declarationList nodes => .declarationList (nodes.map f)
  | .declaration important property content => .declaration important property (f content)
  | .selectorList nodes => .selectorList (nodes.map f)
  | .selector nodes => .selector (nodes.map f)
  | .typeSelector name => .typeSelector name
  | .idSelector name => .idSelector name
  | .classSelector name => .classSelector name
  | .attributeSelector name matcher content flags =>
      .attributeSelector name matcher (content.map f) flags
  | .pseudoClass name nodes => .pseudoClass name (nodes.map (List.map f))
  | .pseudoElement name nodes => .pseudoElement name (nodes.map (List.map f))
  | .combinator name => .combinator name
  | .nth formula filter => .nth (f formula) (filter.map f)
  | .anPlusB a b => .anPlusB a b
  | .value nodes => .value (nodes.map f)
  | .identifier name => .identifier name
  | .number text => .number text
  | .dimension text unit => .dimension text unit
  | .percentage text => .percentage text
  | .hash text => .hash text
  | .string text => .string text
  | .url address => .url (f address)
  | .unicodeRange text => .unicodeRange text
  | .function name nodes => .function name (nodes.map f)
  | .parentheses nodes => .parentheses (nodes.map f)
  | .brackets nodes => .brackets (nodes.map f)
  | .operator text => .operator text
  | .whiteSpace text => .whiteSpace text
  | .comment text => .comment text
  | .raw text => .raw text
  | .mediaQueryList nodes => .mediaQueryList (nodes.map f)
  | .mediaQuery nodes => .mediaQuery (nodes.map f)
  | .mediaFeature name content => .mediaFeature name (content.map f)
  | .ratio left right => .ratio left right
  | .cdo => .cdo
  | .cdc => .cdc

theorem Construct.children_map {α β : Type} (f : α -> β) (construct : Construct α) :
    (construct.map f).children = construct.children.map f := by
  cases construct
  case pseudoClass name arguments | pseudoElement name arguments => cases arguments <;> rfl
  all_goals simp [map, children, Option.toList_map]

theorem Construct.map_id {α : Type} (construct : Construct α) : construct.map id = construct := by
  cases construct <;> simp [Construct.map]

theorem Construct.type_map {α β : Type} (f : α -> β) (construct : Construct α) :
    (construct.map f).type = construct.type := by
  cases construct <;> rfl

/-- A function of nodes that follows a function of tokens, from one source to another. -/
structure Node.Follows (reshape : Token -> Token) (source source' : SourceName)
    (follow : Node -> Node) : Prop where
  construct : forall node, (follow node).construct = node.construct.map follow
  spanning : forall run construct, follow (Node.spanning source run construct) =
    Node.spanning source' (run.map reshape) (construct.map follow)

/-- When a token keeps its text and its place, the nodes over it stay as they are. -/
theorem Node.follows_id {reshape : Token -> Token} (source : SourceName)
    (hstart : forall token, (reshape token).start = token.start)
    (hstop : forall token, (reshape token).stop = token.stop) :
    Node.Follows reshape source source id where
  construct := fun node => node.construct.map_id.symm
  spanning := by
    intro run construct
    have hlocation : Location.ofRun source (run.map reshape) = Location.ofRun source run := by
      unfold Location.ofRun
      rw [List.head?_map, List.getLast?_map]
      cases run.head? with
      | none => rfl
      | some first =>
          cases run.getLast? with
          | none => rfl
          | some last => simp only [Option.map_some, hstart, hstop]
    rw [Construct.map_id, Node.spanning, Node.spanning, hlocation]
    rfl

namespace Node.Follows

variable {reshape : Token -> Token} {source source' : SourceName} {follow : Node -> Node}

theorem ofToken (h : Follows reshape source source' follow) (token : Token)
    (construct : Construct Node) :
    follow (Node.ofToken source token construct) =
      Node.ofToken source' (reshape token) (construct.map follow) :=
  h.spanning [token] construct

theorem rawRun (h : Follows reshape source source' follow) (htokens : Token.Reshapes reshape)
    (run : List Token) :
    follow (Node.rawRun source run) = Node.rawRun source' (run.map reshape) := by
  unfold Node.rawRun
  rw [h.spanning, Run.text_map htokens]
  rfl

theorem type (h : Follows reshape source source' follow) (node : Node) :
    (follow node).type = node.type := by
  unfold Node.type
  rw [h.construct, Construct.type_map]

theorem isWhiteSpace (h : Follows reshape source source' follow) (node : Node) :
    (follow node).isWhiteSpace = node.isWhiteSpace := by
  unfold Node.isWhiteSpace
  rw [h.type]

end Node.Follows

end Stylesheet
