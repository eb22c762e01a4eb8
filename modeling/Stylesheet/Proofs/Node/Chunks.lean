import Stylesheet.Proofs.Node.Pieces

/-!
# The formatting table

A construct is written as a row of chunks, each of which is a text or a node within it.  The
rows stand here side by side.  Main statements: the text of a node is made of the chunks of its
construct, its pieces are theirs, and the nodes among them are the children that are written.
-/

namespace Stylesheet

namespace Construct

/-- The children that are written; an attribute is compared with nothing without a matcher. -/
def writtenChildren : Construct α -> List α
  | .attributeSelector _ none _ _ => []
  | construct => construct.children

theorem writtenChildren_subset (construct : Construct α) :
    construct.writtenChildren ⊆ construct.children := by
  unfold writtenChildren
  split
  · exact List.nil_subset _
  · exact List.Subset.refl _

end Construct

/-- A text, or a node that is written in its place. -/
inductive Chunk where
  | text (written : String)
  | node (node : Node)

namespace Chunk

/-- The text that a chunk stands for. -/
def render : Chunk -> String
  | text written => written
  | node child => child.render

/-- The pieces that a chunk is written with. -/
def pieces : Chunk -> List Piece
  | text written => [.text written]
  | node child => child.pieces

/-- The nodes among chunks. -/
def nodes : List Chunk -> List Node
  | [] => []
  | text _ :: rest => nodes rest
  | node child :: rest => child :: nodes rest

/-- A text behind a mark, if there is one. -/
def marked (mark : String) : Option String -> List Chunk
  | none => []
  | some written => [.text mark, .text written]

/-- A node behind a mark, if there is one. -/
def behind (mark : String) : Option Node -> List Chunk
  | none => []
  | some child => [.text mark, .node child]

/-- A node, or else other chunks. -/
def orElse (others : List Chunk) : Option Node -> List Chunk
  | none => others
  | some child => [.node child]

/-- Nodes one directly behind another. -/
def row (nodes : List Node) : List Chunk :=
  nodes.map .node

/-- Nodes with commas between them. -/
def commaRow (nodes : List Node) : List Chunk :=
  (row nodes).intersperse (.text ",")

/-- Nodes with a semicolon behind every declaration that has a next sibling. -/
def blockRow : List Node -> List Chunk
  | [] => []
  | [child] => [.node child]
  | child :: next :: rest =>
      .node child :: (if child.isDeclaration then [.text ";"] else []) ++ blockRow (next :: rest)

/-- The arguments of a pseudo-class or pseudo-element, if it takes any. -/
def arguments : Option (List Node) -> List Chunk
  | none => []
  | some nodes => [.text "("] ++ row nodes ++ [.text ")"]

/-- The chunks that a construct is written with. -/
def ofConstruct : Construct Node -> List Chunk
  | .styleSheet nodes => row nodes
  | .atRule name prelude body =>
      [.text "@", .text name] ++ behind " " prelude ++ orElse [.text ";"] body
  | .atRulePrelude nodes => row nodes
  | .rule prelude body => [.node prelude, .node body]
  | .block nodes => [.text "\x7b"] ++ blockRow nodes ++ [.text "\x7d"]
  | .declarationList nodes => blockRow nodes
  | .declaration important property content =>
      [.text property, .text ":", .node content] ++
        (if important then [.text "!important"] else [])
  | .selectorList nodes => commaRow nodes
  | .selector nodes => row nodes
  | .typeSelector name => [.text name]
  | .idSelector name => [.text "#", .text name]
  | .classSelector name => [.text ".", .text name]
  | .attributeSelector name none _ flags =>
      [.text "[", .text name] ++ marked " " flags ++ [.text "]"]
  | .attributeSelector name (some matcher) content flags =>
      [.text "[", .text name, .text matcher] ++ orElse [] content ++ marked " " flags ++
        [.text "]"]
  | .pseudoClass name nodes => [.text ":", .text name] ++ arguments nodes
  | .pseudoElement name nodes => [.text "::", .text name] ++ arguments nodes
  | .combinator name => [.text name]
  | .nth formula filter => [.node formula] ++ behind " of " filter
  | .anPlusB a b => [.text (AnPlusB.text ⟨a, b⟩)]
  | .value nodes => row nodes
  | .identifier name => [.text name]
  | .number value => [.text value]
  | .dimension value unit => [.text value, .text unit]
  | .percentage value => [.text value, .text "%"]
  | .hash value => [.text "#", .text value]
  | .string value => [.text value]
  | .url address => [.text "url(", .node address, .text ")"]
  | .unicodeRange value => [.text value]
  | .function name nodes => [.text name, .text "("] ++ row nodes ++ [.text ")"]
  | .parentheses nodes => [.text "("] ++ row nodes ++ [.text ")"]
  | .brackets nodes => [.text "["] ++ row nodes ++ [.text "]"]
  | .operator value => [.text value]
  | .whiteSpace value => [.text value]
  | .comment value => [.text "/*", .text value, .text "*/"]
  | .raw value => [.text value]
  | .mediaQueryList nodes => commaRow nodes
  | .mediaQuery nodes => row nodes
  | .mediaFeature name content => [.text "(", .text name] ++ behind ":" content ++ [.text ")"]
  | .ratio left right => [.text left, .text "/", .text right]
  | .cdo => [.text "<!--"]
  | .cdc => [.text "-->"]

/-! ## Pieces -/

theorem pieces_row (nodes : List Node) : (row nodes).flatMap pieces = Node.allPieces nodes := by
  induction nodes with
  | nil =>
      rw [Node.allPieces]
      rfl
  | cons node rest ih =>
      rw [row, List.map_cons, List.flatMap_cons, ← row, ih, Node.allPieces]
      rfl

theorem pieces_commaRow (nodes : List Node) :
    (commaRow nodes).flatMap pieces = Node.commaPieces nodes := by
  induction nodes with
  | nil =>
      rw [Node.commaPieces]
      rfl
  | cons node rest ih =>
      cases rest with
      | nil =>
          rw [Node.commaPieces]
          exact List.append_nil _
      | cons next rest =>
          rw [Node.commaPieces_cons_cons, ← ih]
          rfl

theorem pieces_blockRow (nodes : List Node) :
    (blockRow nodes).flatMap pieces = Node.blockPieces nodes := by
  induction nodes with
  | nil =>
      rw [Node.blockPieces]
      rfl
  | cons node rest ih =>
      cases rest with
      | nil =>
          rw [Node.blockPieces]
          exact List.append_nil _
      | cons next rest =>
          rw [Node.blockPieces_cons_cons, ← ih, blockRow, List.flatMap_append, List.flatMap_cons]
          cases node.isDeclaration <;> rfl

theorem pieces_behind (mark : String) (node : Option Node) :
    (behind mark node).flatMap pieces = Node.piecesBehind mark node := by
  cases node with
  | none =>
      rw [Node.piecesBehind]
      rfl
  | some node =>
      rw [Node.piecesBehind]
      exact congrArg (Piece.text mark :: ·) (List.append_nil _)

theorem pieces_orElse (others : List Chunk) (node : Option Node) :
    (orElse others node).flatMap pieces = Node.piecesOr (others.flatMap pieces) node := by
  cases node with
  | none =>
      rw [Node.piecesOr]
      rfl
  | some node =>
      rw [Node.piecesOr]
      exact List.append_nil _

theorem pieces_marked (mark : String) (value : Option String) :
    (marked mark value).flatMap pieces = Node.optionalText mark value := by
  cases value <;> rfl

theorem pieces_arguments (nodes : Option (List Node)) :
    (arguments nodes).flatMap pieces = Node.argumentPieces nodes := by
  cases nodes with
  | none =>
      rw [Node.argumentPieces]
      rfl
  | some nodes =>
      rw [Node.argumentPieces, arguments, List.flatMap_append, List.flatMap_append, pieces_row]
      rfl

theorem pieces_ofConstruct (construct : Construct Node) :
    (ofConstruct construct).flatMap pieces = Node.constructPieces construct := by
  cases construct
  case attributeSelector name matcher content flags =>
    cases matcher <;>
      simp [ofConstruct, Node.constructPieces, pieces, pieces_orElse, pieces_marked]
  case declaration important property content =>
    cases important <;> simp [ofConstruct, Node.constructPieces, pieces]
  all_goals
    simp [ofConstruct, Node.constructPieces, pieces, pieces_row, pieces_commaRow,
      pieces_blockRow, pieces_behind, pieces_orElse, pieces_arguments]

/-! ## Texts -/

theorem chars_pieces (chunk : Chunk) : Piece.chars chunk.pieces = chunk.render.toList := by
  cases chunk with
  | text written => exact List.append_nil _
  | node child => exact Node.chars_pieces child

theorem chars_flatMap_pieces (chunks : List Chunk) :
    Piece.chars (chunks.flatMap pieces) = (String.join (chunks.map render)).toList := by
  induction chunks with
  | nil => rfl
  | cons chunk rest ih =>
      rw [List.flatMap_cons, Piece.chars_append, chars_pieces, ih, List.map_cons,
        String.join_cons, String.toList_append]

/-- The text of a node is made of the chunks of its construct. -/
theorem join_ofConstruct (node : Node) :
    String.join ((ofConstruct node.construct).map render) = node.render := by
  rw [← String.toList_inj, ← chars_flatMap_pieces, pieces_ofConstruct,
    Node.chars_constructPieces_eq]

/-! ## Nodes -/

theorem nodes_append (left right : List Chunk) :
    nodes (left ++ right) = nodes left ++ nodes right := by
  induction left with
  | nil => rfl
  | cons chunk rest ih =>
      cases chunk with
      | text written => exact ih
      | node child => exact congrArg (child :: ·) ih

theorem nodes_row (children : List Node) : nodes (row children) = children := by
  induction children with
  | nil => rfl
  | cons child rest ih => exact congrArg (child :: ·) ih

theorem nodes_commaRow (children : List Node) : nodes (commaRow children) = children := by
  induction children with
  | nil => rfl
  | cons child rest ih =>
      cases rest with
      | nil => rfl
      | cons next rest => exact congrArg (child :: ·) ih

theorem nodes_blockRow (children : List Node) : nodes (blockRow children) = children := by
  induction children with
  | nil => rfl
  | cons child rest ih =>
      cases rest with
      | nil => rfl
      | cons next rest =>
          rw [blockRow, List.cons_append, nodes, nodes_append, ih]
          split <;> rfl

theorem nodes_behind (mark : String) (child : Option Node) :
    nodes (behind mark child) = child.toList := by
  cases child <;> rfl

theorem nodes_orElse {others : List Chunk} (h : nodes others = []) (child : Option Node) :
    nodes (orElse others child) = child.toList := by
  cases child with
  | none => exact h
  | some child => rfl

theorem nodes_marked (mark : String) (value : Option String) :
    nodes (marked mark value) = [] := by
  cases value <;> rfl

theorem nodes_arguments (children : Option (List Node)) :
    nodes (arguments children) = children.getD [] := by
  cases children with
  | none => rfl
  | some children =>
      rw [arguments, nodes_append, nodes_append, nodes_row]
      exact List.append_nil children

/-- The nodes among the chunks of a construct are its children that are written. -/
theorem nodes_ofConstruct (construct : Construct Node) :
    nodes (ofConstruct construct) = construct.writtenChildren := by
  cases construct
  case attributeSelector name matcher content flags =>
    have hcontent : nodes (orElse [] content) = content.toList := nodes_orElse rfl content
    cases matcher <;>
      simp [ofConstruct, Construct.writtenChildren, Construct.children, nodes, nodes_append,
        hcontent, nodes_marked]
  case atRule name prelude body =>
    have hbody : nodes (orElse [text ";"] body) = body.toList := nodes_orElse rfl body
    simp [ofConstruct, Construct.writtenChildren, Construct.children, nodes, nodes_append,
      nodes_behind, hbody]
  case declaration important property content =>
    cases important <;> rfl
  all_goals
    simp [ofConstruct, Construct.writtenChildren, Construct.children, nodes, nodes_append,
      nodes_row, nodes_commaRow, nodes_blockRow, nodes_behind, nodes_arguments]

end Chunk
end Stylesheet
