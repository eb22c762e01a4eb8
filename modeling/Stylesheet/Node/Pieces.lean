import Stylesheet.AnPlusB
import Stylesheet.Node.Basic

/-!
# Writing a node piece by piece

Writing a node is a sequence of pieces: texts, and marks where a node starts and where it
ends.  Whoever follows the sequence knows of every text which nodes it belongs to.
-/

namespace Stylesheet

/-- A text that is written, or the start or end of a node. -/
inductive Piece where
  | enter (node : Node)
  | text (text : String)
  | leave (node : Node)

namespace Node

/-- A text that is written if there is one. -/
def optionalText (mark : String) : Option String -> List Piece
  | none => []
  | some text => [.text mark, .text text]

mutual

/-- The pieces of a node, its own marks around those of its construct. -/
def pieces : Node -> List Piece
  | ⟨construct, location⟩ =>
      .enter ⟨construct, location⟩ :: constructPieces construct ++ [.leave ⟨construct, location⟩]

/-- The pieces of a construct. -/
def constructPieces : Construct Node -> List Piece
  | .styleSheet nodes => allPieces nodes
  | .atRule name prelude body =>
      [.text "@", .text name] ++ piecesBehind " " prelude ++ piecesOr [.text ";"] body
  | .atRulePrelude nodes => allPieces nodes
  | .rule prelude body => prelude.pieces ++ body.pieces
  | .block nodes => [.text "\x7b"] ++ blockPieces nodes ++ [.text "\x7d"]
  | .declarationList nodes => blockPieces nodes
  | .declaration important property content =>
      [.text property, .text ":"] ++ content.pieces ++
        (if important then [.text "!important"] else [])
  | .selectorList nodes => commaPieces nodes
  | .selector nodes => allPieces nodes
  | .typeSelector name => [.text name]
  | .idSelector name => [.text "#", .text name]
  | .classSelector name => [.text ".", .text name]
  | .attributeSelector name matcher content flags =>
      [.text "[", .text name] ++
        (match matcher with
          | none => []
          | some matcher => .text matcher :: piecesOr [] content) ++
        optionalText " " flags ++ [.text "]"]
  | .pseudoClass name arguments => .text ":" :: .text name :: argumentPieces arguments
  | .pseudoElement name arguments => .text "::" :: .text name :: argumentPieces arguments
  | .combinator name => [.text name]
  | .nth formula filter => formula.pieces ++ piecesBehind " of " filter
  | .anPlusB a b => [.text (AnPlusB.text ⟨a, b⟩)]
  | .value nodes => allPieces nodes
  | .identifier name => [.text name]
  | .number value => [.text value]
  | .dimension value unit => [.text value, .text unit]
  | .percentage value => [.text value, .text "%"]
  | .hash value => [.text "#", .text value]
  | .string value => [.text value]
  | .url address => [.text "url("] ++ address.pieces ++ [.text ")"]
  | .unicodeRange value => [.text value]
  | .function name nodes => [.text name, .text "("] ++ allPieces nodes ++ [.text ")"]
  | .parentheses nodes => [.text "("] ++ allPieces nodes ++ [.text ")"]
  | .brackets nodes => [.text "["] ++ allPieces nodes ++ [.text "]"]
  | .operator value => [.text value]
  | .whiteSpace value => [.text value]
  | .comment value => [.text "/*", .text value, .text "*/"]
  | .raw value => [.text value]
  | .mediaQueryList nodes => commaPieces nodes
  | .mediaQuery nodes => allPieces nodes
  | .mediaFeature name content =>
      [.text "(", .text name] ++ piecesBehind ":" content ++ [.text ")"]
  | .ratio left right => [.text left, .text "/", .text right]
  | .cdo => [.text "<!--"]
  | .cdc => [.text "-->"]

/-- The pieces of nodes, one directly behind another. -/
def allPieces : List Node -> List Piece
  | [] => []
  | node :: rest => node.pieces ++ allPieces rest

/-- The pieces of nodes with commas between them. -/
def commaPieces : List Node -> List Piece
  | [] => []
  | [node] => node.pieces
  | node :: rest => node.pieces ++ .text "," :: commaPieces rest

/-- The pieces of the children of a block. -/
def blockPieces : List Node -> List Piece
  | [] => []
  | [node] => node.pieces
  | node :: rest =>
      node.pieces ++ (if node.isDeclaration then [.text ";"] else []) ++ blockPieces rest

/-- The pieces of the arguments of a pseudo-class or pseudo-element, if it takes any. -/
def argumentPieces : Option (List Node) -> List Piece
  | none => []
  | some nodes => [.text "("] ++ allPieces nodes ++ [.text ")"]

/-- The pieces of a node behind a mark, or nothing. -/
def piecesBehind (mark : String) : Option Node -> List Piece
  | none => []
  | some node => .text mark :: node.pieces

/-- The pieces of a node, or else others. -/
def piecesOr (others : List Piece) : Option Node -> List Piece
  | none => others
  | some node => node.pieces

end

end Node
end Stylesheet
