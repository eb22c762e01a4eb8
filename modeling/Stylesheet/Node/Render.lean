import Stylesheet.AnPlusB
import Stylesheet.Node.Basic

/-!
# The text of a node

`Node.render` writes a node in the shortest form that the tree gives: no blanks but those
that stand in the tree, and a semicolon behind a declaration only when something follows
it in its block.
-/

namespace Stylesheet
namespace Node

mutual

/-- The text of a node. -/
def render : Node -> String
  | ⟨construct, _⟩ => renderConstruct construct

/-- The text of a construct. -/
def renderConstruct : Construct Node -> String
  | .styleSheet nodes => renderAll nodes
  | .atRule name prelude body =>
      "@" ++ name ++ renderBehind " " prelude ++ renderOr ";" body
  | .atRulePrelude nodes => renderAll nodes
  | .rule prelude body => prelude.render ++ body.render
  | .block nodes => "\x7b" ++ renderBlock nodes ++ "\x7d"
  | .declarationList nodes => renderBlock nodes
  | .declaration important property content =>
      property ++ ":" ++ content.render ++ (if important then "!important" else "")
  | .selectorList nodes => renderCommas nodes
  | .selector nodes => renderAll nodes
  | .typeSelector name => name
  | .idSelector name => "#" ++ name
  | .classSelector name => "." ++ name
  | .attributeSelector name none _ flags =>
      "[" ++ name ++ ((flags.map (" " ++ ·)).getD "") ++ "]"
  | .attributeSelector name (some matcher) content flags =>
      "[" ++ name ++ matcher ++ renderOr "" content ++ ((flags.map (" " ++ ·)).getD "") ++ "]"
  | .pseudoClass name none => ":" ++ name
  | .pseudoClass name (some nodes) => ":" ++ name ++ "(" ++ renderAll nodes ++ ")"
  | .pseudoElement name none => "::" ++ name
  | .pseudoElement name (some nodes) => "::" ++ name ++ "(" ++ renderAll nodes ++ ")"
  | .combinator name => name
  | .nth formula filter => formula.render ++ renderBehind " of " filter
  | .anPlusB a b => AnPlusB.text ⟨a, b⟩
  | .value nodes => renderAll nodes
  | .identifier name => name
  | .number value => value
  | .dimension value unit => value ++ unit
  | .percentage value => value ++ "%"
  | .hash value => "#" ++ value
  | .string value => value
  | .url address => "url(" ++ address.render ++ ")"
  | .unicodeRange value => value
  | .function name nodes => name ++ "(" ++ renderAll nodes ++ ")"
  | .parentheses nodes => "(" ++ renderAll nodes ++ ")"
  | .brackets nodes => "[" ++ renderAll nodes ++ "]"
  | .operator value => value
  | .whiteSpace value => value
  | .comment value => "/*" ++ value ++ "*/"
  | .raw value => value
  | .mediaQueryList nodes => renderCommas nodes
  | .mediaQuery nodes => renderAll nodes
  | .mediaFeature name content => "(" ++ name ++ renderBehind ":" content ++ ")"
  | .ratio left right => left ++ "/" ++ right
  | .cdo => "<!--"
  | .cdc => "-->"

/-- The texts of nodes, one directly behind another. -/
def renderAll : List Node -> String
  | [] => ""
  | node :: rest => node.render ++ renderAll rest

/-- The texts of nodes with commas between them. -/
def renderCommas : List Node -> String
  | [] => ""
  | [node] => node.render
  | node :: rest => node.render ++ "," ++ renderCommas rest

/-- The texts of the children of a block. -/
def renderBlock : List Node -> String
  | [] => ""
  | [node] => node.render
  | node :: rest =>
      node.render ++ (if node.isDeclaration then ";" else "") ++ renderBlock rest

/-- The text of a node behind a mark, or nothing. -/
def renderBehind (mark : String) : Option Node -> String
  | none => ""
  | some node => mark ++ node.render

/-- The text of a node, or else another text. -/
def renderOr (other : String) : Option Node -> String
  | none => other
  | some node => node.render

end

end Node
end Stylesheet
