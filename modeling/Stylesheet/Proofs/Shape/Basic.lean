import Mathlib.Data.List.Chain
import Stylesheet.Proofs.Node.Preorder
import Stylesheet.Sheet

/-!
# The shape of a tree

A tree of constructs may be built in many ways, and few of them are the tree of a stylesheet.
`Node.Shaped` says what every construct within a parsed tree looks like: of what types its
children are, how many there are, and which of them may stand beside each other.
-/

namespace Stylesheet

/-! ## Rows of nodes -/

/-- Whitespace stands between two components that need it, and is one piece. -/
structure Value.IsNormal (nodes : List Node) : Prop where
  begins : forall first, first ∈ nodes.head? -> first.isWhiteSpace = false
  ends : forall last, last ∈ nodes.getLast? -> last.isWhiteSpace = false
  apart : nodes.IsChain fun left right =>
    (left.isWhiteSpace = true -> right.isWhiteSpace = false ∧ isTight right = false) ∧
      (right.isWhiteSpace = true -> isTight left = false)

/-- A combinator stands between two simple selectors; only a written one may come first. -/
structure Selector.IsComplex (nodes : List Node) : Prop where
  nonempty : nodes ≠ []
  begins : forall first, first ∈ nodes.head? -> first.construct ≠ .combinator " "
  ends : forall last, last ∈ nodes.getLast? -> last.isCombinator = false
  apart : nodes.IsChain fun left right => left.isCombinator = true -> right.isCombinator = false

/-- The types of what may stand within a scope. -/
def Sheet.Scope.itemTypes : Scope -> List NodeType
  | .sheet => [.rule, .atRule, .comment, .cdo, .cdc]
  | .rules => [.rule, .atRule]
  | .declarations => [.declaration, .atRule]

/-- What stands between the braces of an at-rule. -/
def Sheet.scopeOf (name : String) : Scope :=
  if holdsDeclarations name then .declarations else .rules

/-- A block that holds only what may stand within a scope. -/
def Node.IsBlockOf (scope : Sheet.Scope) (node : Node) : Prop :=
  exists nodes, node.construct = .block nodes ∧
    forall child, child ∈ nodes -> child.type ∈ scope.itemTypes

/-! ## Constructs -/

/-- What a construct of a parsed tree looks like. -/
def Construct.IsShaped : Construct Node -> Prop
  | .styleSheet nodes =>
      forall child, child ∈ nodes -> child.type ∈ Sheet.Scope.itemTypes .sheet
  | .atRule name prelude body =>
      (forall node, node ∈ prelude -> node.type = .atRulePrelude) ∧
        forall node, node ∈ body -> node.IsBlockOf (Sheet.scopeOf name)
  | .rule prelude body =>
      prelude.type ∈ [.selectorList, .raw] ∧ body.IsBlockOf .declarations
  | .declaration _ property content =>
      property ≠ "" ∧ (forall c, c ∈ property.toList -> Character.isBlank c = false) ∧
        content.type ∈ [.value, .raw] ∧ (['-', '-'] <+: property.toList -> content.type = .raw)
  | .selectorList nodes =>
      nodes ≠ [] ∧ forall child, child ∈ nodes -> child.type = .selector
  | .selector nodes => Selector.IsComplex nodes
  | .attributeSelector _ matcher content flags =>
      content.isSome = matcher.isSome ∧ (flags.isSome = true -> matcher.isSome = true)
  | .pseudoClass _ children | .pseudoElement _ children =>
      forall nodes, nodes ∈ children -> nodes.length = 1
  | .atRulePrelude nodes | .value nodes | .function _ nodes | .parentheses nodes
    | .brackets nodes => Value.IsNormal nodes
  | .mediaQueryList nodes =>
      nodes ≠ [] ∧ forall child, child ∈ nodes -> child.type = .mediaQuery
  | .mediaQuery nodes => nodes ≠ []
  | _ => True

namespace Node

/-- A node looks as its construct asks for, and only rules and at-rules have a block. -/
structure IsShaped (node : Node) : Prop where
  construct : node.construct.IsShaped
  blocks : forall child, child ∈ node.construct.children -> child.type = .block ->
    node.type = .rule ∨ node.type = .atRule

/-- Every node of a tree is shaped. -/
def Shaped (tree : Node) : Prop :=
  forall node, node ∈ tree.preorder -> node.IsShaped

theorem shaped_iff {node : Node} :
    node.Shaped <->
      node.IsShaped ∧ forall child, child ∈ node.construct.children -> child.Shaped := by
  unfold Shaped
  rw [preorder_eq, List.forall_mem_cons, List.forall_mem_flatMap]

/-- A shaped tree that may stand anywhere: it is no block. -/
structure IsInline (node : Node) : Prop where
  shaped : node.Shaped
  type : node.type ≠ .block

section Inline

variable {construct : Construct Node} {location : Option Location}

theorem shaped_of_children (hshape : construct.IsShaped)
    (hchildren : forall child, child ∈ construct.children -> child.IsInline) :
    (Node.mk construct location).Shaped := by
  refine shaped_iff.mpr ⟨⟨hshape, ?_⟩, ?_⟩
  · intro child hchild htype
    exact absurd htype (hchildren child hchild).type
  · intro child hchild
    exact (hchildren child hchild).shaped

theorem isInline_of_children (hshape : construct.IsShaped) (htype : construct.type ≠ .block)
    (hchildren : forall child, child ∈ construct.children -> child.IsInline) :
    (Node.mk construct location).IsInline :=
  ⟨shaped_of_children hshape hchildren, htype⟩

theorem isInline_leaf (hshape : construct.IsShaped) (htype : construct.type ≠ .block)
    (hchildren : construct.children = []) : (Node.mk construct location).IsInline := by
  refine isInline_of_children hshape htype ?_
  rw [hchildren]
  intro child hnil
  cases hnil

theorem isInline_rawRun (source : SourceName) (run : List Token) :
    (rawRun source run).IsInline :=
  isInline_leaf trivial NodeType.noConfusion rfl

end Inline

end Node
end Stylesheet
