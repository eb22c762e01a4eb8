import Stylesheet.Text.Place

/-!
# The tree of a stylesheet

A node is a construct together with where it came from, when that is known.  The set of
constructs is closed.  What the parser does not model is kept as raw text, so that any
subtree may stand for text that nobody has looked into.
-/

namespace Stylesheet

/-- Where a node came from: a source and the range of it that the node covers. -/
structure Location where
  sourceName : String
  start : Position
  stop : Position
deriving DecidableEq, Repr

/-! ## Types of nodes -/

/-- The name tag of a construct. -/
inductive NodeType where
  | styleSheet
  | atRule
  | atRulePrelude
  | rule
  | block
  | declarationList
  | declaration
  | selectorList
  | selector
  | typeSelector
  | idSelector
  | classSelector
  | attributeSelector
  | pseudoClass
  | pseudoElement
  | combinator
  | nth
  | anPlusB
  | value
  | identifier
  | number
  | dimension
  | percentage
  | hash
  | string
  | url
  | unicodeRange
  | function
  | parentheses
  | brackets
  | operator
  | whiteSpace
  | comment
  | raw
  | mediaQueryList
  | mediaQuery
  | mediaFeature
  | ratio
  | cdo
  | cdc
deriving DecidableEq, Repr

namespace NodeType

/-- Every type, in the order in which they are numbered. -/
def all : List NodeType :=
  [styleSheet, atRule, atRulePrelude, rule, block, declarationList, declaration,
    selectorList, selector, typeSelector, idSelector, classSelector, attributeSelector,
    pseudoClass, pseudoElement, combinator, nth, anPlusB, value, identifier, number,
    dimension, percentage, hash, string, url, unicodeRange, function, parentheses,
    brackets, operator, whiteSpace, comment, raw, mediaQueryList, mediaQuery,
    mediaFeature, ratio, cdo, cdc]

/-- How a type is written. -/
def name : NodeType -> String
  | styleSheet => "StyleSheet"
  | atRule => "Atrule"
  | atRulePrelude => "AtrulePrelude"
  | rule => "Rule"
  | block => "Block"
  | declarationList => "DeclarationList"
  | declaration => "Declaration"
  | selectorList => "SelectorList"
  | selector => "Selector"
  | typeSelector => "TypeSelector"
  | idSelector => "IdSelector"
  | classSelector => "ClassSelector"
  | attributeSelector => "AttributeSelector"
  | pseudoClass => "PseudoClassSelector"
  | pseudoElement => "PseudoElementSelector"
  | combinator => "Combinator"
  | nth => "Nth"
  | anPlusB => "AnPlusB"
  | value => "Value"
  | identifier => "Identifier"
  | number => "Number"
  | dimension => "Dimension"
  | percentage => "Percentage"
  | hash => "Hash"
  | string => "String"
  | url => "Url"
  | unicodeRange => "UnicodeRange"
  | function => "Function"
  | parentheses => "Parentheses"
  | brackets => "Brackets"
  | operator => "Operator"
  | whiteSpace => "WhiteSpace"
  | comment => "Comment"
  | raw => "Raw"
  | mediaQueryList => "MediaQueryList"
  | mediaQuery => "MediaQuery"
  | mediaFeature => "MediaFeature"
  | ratio => "Ratio"
  | cdo => "CDO"
  | cdc => "CDC"

/-- The written types. -/
def names : List String :=
  all.map name

/-- The type that is written so. -/
def ofName? (text : String) : Option NodeType :=
  all.find? fun type => type.name == text

/-- Whether a text is a written type. -/
def isKnown (text : String) : Bool :=
  names.contains text

theorem mem_all (type : NodeType) : type ∈ all := by
  cases type <;> decide

end NodeType

/-! ## Constructs -/

/-- The constructs of a stylesheet over a type of children. -/
inductive Construct (α : Type) where
  | styleSheet (children : List α)
  | atRule (name : String) (prelude : Option α) (block : Option α)
  | atRulePrelude (children : List α)
  | rule (prelude : α) (block : α)
  | block (children : List α)
  | declarationList (children : List α)
  | declaration (important : Bool) (property : String) (value : α)
  | selectorList (children : List α)
  | selector (children : List α)
  | typeSelector (name : String)
  | idSelector (name : String)
  | classSelector (name : String)
  | attributeSelector (name : String) (matcher : Option String) (value : Option α)
      (flags : Option String)
  | pseudoClass (name : String) (children : Option (List α))
  | pseudoElement (name : String) (children : Option (List α))
  | combinator (name : String)
  | nth (nth : α) (selector : Option α)
  | anPlusB (a : Option String) (b : Option String)
  | value (children : List α)
  | identifier (name : String)
  | number (value : String)
  | dimension (value : String) (unit : String)
  | percentage (value : String)
  | hash (value : String)
  | string (value : String)
  | url (value : α)
  | unicodeRange (value : String)
  | function (name : String) (children : List α)
  | parentheses (children : List α)
  | brackets (children : List α)
  | operator (value : String)
  | whiteSpace (value : String)
  | comment (value : String)
  | raw (value : String)
  | mediaQueryList (children : List α)
  | mediaQuery (children : List α)
  | mediaFeature (name : String) (value : Option α)
  | ratio (left : String) (right : String)
  | cdo
  | cdc
deriving Repr

namespace Construct

/-- The type of a construct. -/
def type : Construct α -> NodeType
  | styleSheet _ => .styleSheet
  | atRule .. => .atRule
  | atRulePrelude _ => .atRulePrelude
  | rule .. => .rule
  | block _ => .block
  | declarationList _ => .declarationList
  | declaration .. => .declaration
  | selectorList _ => .selectorList
  | selector _ => .selector
  | typeSelector _ => .typeSelector
  | idSelector _ => .idSelector
  | classSelector _ => .classSelector
  | attributeSelector .. => .attributeSelector
  | pseudoClass .. => .pseudoClass
  | pseudoElement .. => .pseudoElement
  | combinator _ => .combinator
  | nth .. => .nth
  | anPlusB .. => .anPlusB
  | value _ => .value
  | identifier _ => .identifier
  | number _ => .number
  | dimension .. => .dimension
  | percentage _ => .percentage
  | hash _ => .hash
  | string _ => .string
  | url _ => .url
  | unicodeRange _ => .unicodeRange
  | function .. => .function
  | parentheses _ => .parentheses
  | brackets _ => .brackets
  | operator _ => .operator
  | whiteSpace _ => .whiteSpace
  | comment _ => .comment
  | raw _ => .raw
  | mediaQueryList _ => .mediaQueryList
  | mediaQuery _ => .mediaQuery
  | mediaFeature .. => .mediaFeature
  | ratio .. => .ratio
  | cdo => .cdo
  | cdc => .cdc

/-- The children of a construct, in the order in which they stand in a stylesheet. -/
def children : Construct α -> List α
  | .styleSheet nodes => nodes
  | .atRule _ prelude body => prelude.toList ++ body.toList
  | .atRulePrelude nodes => nodes
  | .rule prelude body => [prelude, body]
  | .block nodes => nodes
  | .declarationList nodes => nodes
  | .declaration _ _ content => [content]
  | .selectorList nodes => nodes
  | .selector nodes => nodes
  | .attributeSelector _ _ content _ => content.toList
  | .pseudoClass _ arguments => arguments.getD []
  | .pseudoElement _ arguments => arguments.getD []
  | .nth formula filter => formula :: filter.toList
  | .value nodes => nodes
  | .url address => [address]
  | .function _ arguments => arguments
  | .parentheses nodes => nodes
  | .brackets nodes => nodes
  | .mediaQueryList nodes => nodes
  | .mediaQuery nodes => nodes
  | .mediaFeature _ content => content.toList
  | _ => []

end Construct

/-! ## Nodes -/

/-- A construct with its location, when it is known. -/
structure Node where
  construct : Construct Node
  location : Option Location

namespace Node

/-- A node that came from nowhere. -/
def ofConstruct (construct : Construct Node) : Node :=
  ⟨construct, none⟩

def type (node : Node) : NodeType :=
  node.construct.type

def isDeclaration (node : Node) : Bool :=
  node.type == .declaration

def isCombinator (node : Node) : Bool :=
  node.type == .combinator

def isWhiteSpace (node : Node) : Bool :=
  node.type == .whiteSpace

/-- A child is smaller than the construct it belongs to. -/
theorem sizeOf_lt_of_mem_children {construct : Construct Node} {child : Node}
    (h : child ∈ construct.children) : sizeOf child < sizeOf construct := by
  have hlist : ∀ children : List Node, child ∈ children -> sizeOf child < sizeOf children :=
    fun _ => List.sizeOf_lt_of_mem
  cases construct <;> simp only [Construct.children, List.mem_append, List.mem_cons,
    Option.mem_toList, List.not_mem_nil, or_false] at h <;>
    first
      | exact False.elim h
      | (refine Nat.lt_trans (hlist _ h) ?_; simp +arith; done)
      | skip
  case atRule =>
      rcases h with rfl | rfl <;>
        simp only [Construct.atRule.sizeOf_spec, Option.some.sizeOf_spec] <;> omega
  case rule =>
      rcases h with rfl | rfl <;> simp only [Construct.rule.sizeOf_spec] <;> omega
  case declaration =>
      subst h
      simp only [Construct.declaration.sizeOf_spec]
      omega
  case attributeSelector =>
      subst h
      simp only [Construct.attributeSelector.sizeOf_spec, Option.some.sizeOf_spec]
      omega
  case pseudoClass name children =>
      cases children with
      | none =>
          exact absurd h List.not_mem_nil
      | some children =>
          have := hlist children h
          simp only [Construct.pseudoClass.sizeOf_spec, Option.some.sizeOf_spec]
          omega
  case pseudoElement name children =>
      cases children with
      | none =>
          exact absurd h List.not_mem_nil
      | some children =>
          have := hlist children h
          simp only [Construct.pseudoElement.sizeOf_spec, Option.some.sizeOf_spec]
          omega
  case nth =>
      rcases h with rfl | rfl <;>
        simp only [Construct.nth.sizeOf_spec, Option.some.sizeOf_spec] <;> omega
  case url =>
      subst h
      simp only [Construct.url.sizeOf_spec]
      omega
  case mediaFeature =>
      subst h
      simp only [Construct.mediaFeature.sizeOf_spec, Option.some.sizeOf_spec]
      omega

/-- What holds of a node whenever it holds of its children holds of every node. -/
theorem induction {motive : Node -> Prop}
    (step : ∀ node : Node, (∀ child ∈ node.construct.children, motive child) -> motive node)
    (node : Node) : motive node :=
  step node fun child _h => induction step child
termination_by sizeOf node
decreasing_by
  have := sizeOf_lt_of_mem_children _h
  cases node
  simp at this ⊢
  omega

end Node

end Stylesheet
