import Stylesheet.Node.Pieces
import Stylesheet.Node.Render
import Stylesheet.Proofs.Node.Preorder

/-!
# What the pieces of a node say

The pieces of a node hold its text and the starts of the nodes within it.  Main statements:
the texts among the pieces are the rendering of the node, every node starts where its own
rendering begins, and the nodes start in document order.
-/

namespace Stylesheet
namespace Piece

/-- The characters that a piece writes. -/
def ownChars : Piece -> List Char
  | text written => written.toList
  | _ => []

/-- The characters that pieces write. -/
def chars (pieces : List Piece) : List Char :=
  pieces.flatMap ownChars

@[simp] theorem chars_nil : chars [] = [] := rfl

@[simp] theorem chars_text (written : String) (pieces : List Piece) :
    chars (text written :: pieces) = written.toList ++ chars pieces := rfl

@[simp] theorem chars_enter (node : Node) (pieces : List Piece) :
    chars (enter node :: pieces) = chars pieces := rfl

@[simp] theorem chars_leave (node : Node) (pieces : List Piece) :
    chars (leave node :: pieces) = chars pieces := rfl

@[simp] theorem chars_append (left right : List Piece) :
    chars (left ++ right) = chars left ++ chars right :=
  List.flatMap_append

/-- The nodes that start among pieces, each with the characters written before it. -/
def starts (before : List Char) : List Piece -> List (Node × List Char)
  | [] => []
  | enter node :: rest => (node, before) :: starts before rest
  | text written :: rest => starts (before ++ written.toList) rest
  | leave _ :: rest => starts before rest

theorem starts_append (before : List Char) (left right : List Piece) :
    starts before (left ++ right) =
      starts before left ++ starts (before ++ chars left) right := by
  induction left generalizing before with
  | nil =>
      rw [chars_nil, List.append_nil]
      rfl
  | cons piece left ih =>
      cases piece with
      | enter node =>
          rw [List.cons_append, starts, ih, chars_enter]
          rfl
      | text written =>
          rw [List.cons_append, starts, ih, chars_text, List.append_assoc]
          rfl
      | leave node =>
          rw [List.cons_append, starts, ih, chars_leave]
          rfl

end Piece

namespace Node

open Piece

theorem pieces_eq (node : Node) :
    node.pieces = enter node :: constructPieces node.construct ++ [leave node] := by
  cases node
  rw [pieces]

theorem render_eq (node : Node) : node.render = renderConstruct node.construct := by
  cases node
  rw [render]

/-! ## The text among the pieces -/

section Text

variable {nodes : List Node}

theorem chars_allPieces (h : forall child, child ∈ nodes ->
    chars child.pieces = child.render.toList) :
    chars (allPieces nodes) = (renderAll nodes).toList := by
  induction nodes with
  | nil => rw [allPieces, renderAll, chars_nil, String.toList_empty]
  | cons node rest ih =>
      rw [allPieces, renderAll, chars_append, String.toList_append, h node List.mem_cons_self,
        ih fun child hchild => h child (List.mem_cons_of_mem node hchild)]

theorem commaPieces_cons_cons (node next : Node) (rest : List Node) :
    commaPieces (node :: next :: rest) =
      node.pieces ++ text "," :: commaPieces (next :: rest) := by
  rw [commaPieces]
  intro heq
  cases heq

theorem renderCommas_cons_cons (node next : Node) (rest : List Node) :
    renderCommas (node :: next :: rest) = node.render ++ "," ++ renderCommas (next :: rest) := by
  rw [renderCommas]
  intro heq
  cases heq

theorem blockPieces_cons_cons (node next : Node) (rest : List Node) :
    blockPieces (node :: next :: rest) =
      node.pieces ++ (if node.isDeclaration then [text ";"] else []) ++
        blockPieces (next :: rest) := by
  rw [blockPieces]
  intro heq
  cases heq

theorem renderBlock_cons_cons (node next : Node) (rest : List Node) :
    renderBlock (node :: next :: rest) =
      node.render ++ (if node.isDeclaration then ";" else "") ++ renderBlock (next :: rest) := by
  rw [renderBlock]
  intro heq
  cases heq

theorem chars_commaPieces (h : forall child, child ∈ nodes ->
    chars child.pieces = child.render.toList) :
    chars (commaPieces nodes) = (renderCommas nodes).toList := by
  induction nodes with
  | nil => rw [commaPieces, renderCommas, chars_nil, String.toList_empty]
  | cons node rest ih =>
      have hnode := h node List.mem_cons_self
      cases rest with
      | nil => rw [commaPieces, renderCommas, hnode]
      | cons next rest =>
          rw [commaPieces_cons_cons, renderCommas_cons_cons, chars_append, chars_text, hnode,
            ih fun child hchild => h child (List.mem_cons_of_mem node hchild),
            String.toList_append, String.toList_append, List.append_assoc]

theorem chars_blockPieces (h : forall child, child ∈ nodes ->
    chars child.pieces = child.render.toList) :
    chars (blockPieces nodes) = (renderBlock nodes).toList := by
  induction nodes with
  | nil => rw [blockPieces, renderBlock, chars_nil, String.toList_empty]
  | cons node rest ih =>
      have hnode := h node List.mem_cons_self
      cases rest with
      | nil => rw [blockPieces, renderBlock, hnode]
      | cons next rest =>
          rw [blockPieces_cons_cons, renderBlock_cons_cons, chars_append, chars_append, hnode,
            ih fun child hchild => h child (List.mem_cons_of_mem node hchild),
            String.toList_append, String.toList_append]
          cases node.isDeclaration <;> rfl

theorem chars_piecesBehind (mark : String) {node : Option Node}
    (h : forall child, child ∈ node -> chars child.pieces = child.render.toList) :
    chars (piecesBehind mark node) = (renderBehind mark node).toList := by
  cases node with
  | none => rw [piecesBehind, renderBehind, chars_nil, String.toList_empty]
  | some node => rw [piecesBehind, renderBehind, chars_text, h node rfl, String.toList_append]

theorem chars_piecesOr {others : List Piece} {other : String} {node : Option Node}
    (hother : chars others = other.toList)
    (h : forall child, child ∈ node -> chars child.pieces = child.render.toList) :
    chars (piecesOr others node) = (renderOr other node).toList := by
  cases node with
  | none => rw [piecesOr, renderOr, hother]
  | some node => rw [piecesOr, renderOr, h node rfl]

theorem chars_optionalText (mark : String) (value : Option String) :
    chars (optionalText mark value) = ((value.map (mark ++ ·)).getD "").toList := by
  cases value with
  | none => rfl
  | some value =>
      show mark.toList ++ (value.toList ++ []) = (mark ++ value).toList
      rw [List.append_nil, String.toList_append]

end Text

theorem chars_attributePieces (name : String) (matcher : Option String) (content : Option Node)
    (flags : Option String)
    (h : forall child, child ∈ content -> chars child.pieces = child.render.toList) :
    chars (constructPieces (.attributeSelector name matcher content flags)) =
      (renderConstruct (.attributeSelector name matcher content flags)).toList := by
  cases matcher with
  | none => simp [constructPieces, renderConstruct, chars_optionalText]
  | some matcher =>
      have hcontent : chars (piecesOr [] content) = (renderOr "" content).toList :=
        chars_piecesOr rfl h
      simp [constructPieces, renderConstruct, chars_optionalText, hcontent]

theorem chars_argumentPieces {arguments : Option (List Node)}
    (h : forall child, child ∈ arguments.getD [] -> chars child.pieces = child.render.toList) :
    chars (argumentPieces arguments) =
      ((arguments.map fun nodes => "(" ++ renderAll nodes ++ ")").getD "").toList := by
  cases arguments with
  | none => rw [argumentPieces, Option.map_none, Option.getD_none, chars_nil, String.toList_empty]
  | some nodes =>
      have hnodes : chars (allPieces nodes) = (renderAll nodes).toList := chars_allPieces h
      rw [argumentPieces, chars_append, chars_append, hnodes, Option.map_some,
        Option.getD_some, String.toList_append, String.toList_append]
      rfl

theorem chars_constructPieces (construct : Construct Node)
    (h : forall child, child ∈ construct.children -> chars child.pieces = child.render.toList) :
    chars (constructPieces construct) = (renderConstruct construct).toList := by
  cases construct
  case attributeSelector name matcher content flags =>
    refine chars_attributePieces name matcher content flags ?_
    intro child hchild
    exact h child (Option.mem_toList.mpr hchild)
  case pseudoClass name arguments =>
    have harguments := chars_argumentPieces h
    cases arguments <;> simp [constructPieces, renderConstruct, harguments]
  case pseudoElement name arguments =>
    have harguments := chars_argumentPieces h
    cases arguments <;> simp [constructPieces, renderConstruct, harguments]
  case atRule name prelude body =>
    have hprelude : chars (piecesBehind " " prelude) = (renderBehind " " prelude).toList := by
      refine chars_piecesBehind " " ?_
      intro child hchild
      exact h child (List.mem_append_left _ (Option.mem_toList.mpr hchild))
    have hbody : chars (piecesOr [text ";"] body) = (renderOr ";" body).toList := by
      refine chars_piecesOr rfl ?_
      intro child hchild
      exact h child (List.mem_append_right _ (Option.mem_toList.mpr hchild))
    simp [constructPieces, renderConstruct, hprelude, hbody]
  case nth formula filter =>
    have hfilter : chars (piecesBehind " of " filter) = (renderBehind " of " filter).toList := by
      refine chars_piecesBehind " of " ?_
      intro child hchild
      exact h child (List.mem_cons_of_mem formula (Option.mem_toList.mpr hchild))
    simp [constructPieces, renderConstruct, h formula List.mem_cons_self, hfilter]
  case mediaFeature name content =>
    have hcontent : chars (piecesBehind ":" content) = (renderBehind ":" content).toList := by
      refine chars_piecesBehind ":" ?_
      intro child hchild
      exact h child (Option.mem_toList.mpr hchild)
    simp [constructPieces, renderConstruct, hcontent]
  case declaration important property content =>
    have hcontent := h content List.mem_cons_self
    cases important <;> simp [constructPieces, renderConstruct, hcontent]
  case rule prelude body =>
    have hprelude := h prelude List.mem_cons_self
    have hbody := h body (List.mem_cons_of_mem prelude List.mem_cons_self)
    simp [constructPieces, renderConstruct, hprelude, hbody]
  case url address =>
    have haddress := h address List.mem_cons_self
    simp [constructPieces, renderConstruct, haddress]
  case selectorList nodes | mediaQueryList nodes =>
    have hnodes : chars (commaPieces nodes) = (renderCommas nodes).toList := chars_commaPieces h
    simp [constructPieces, renderConstruct, hnodes]
  case block nodes | declarationList nodes =>
    have hnodes : chars (blockPieces nodes) = (renderBlock nodes).toList := chars_blockPieces h
    simp [constructPieces, renderConstruct, hnodes]
  case styleSheet nodes | atRulePrelude nodes | selector nodes | value nodes |
      function name nodes | parentheses nodes | brackets nodes | mediaQuery nodes =>
    have hnodes : chars (allPieces nodes) = (renderAll nodes).toList := chars_allPieces h
    simp [constructPieces, renderConstruct, hnodes]
  all_goals simp [constructPieces, renderConstruct]

/-- The texts among the pieces of a node are its rendering. -/
theorem chars_pieces (node : Node) : chars node.pieces = node.render.toList := by
  induction node using Node.induction with
  | step node ih =>
      rw [pieces_eq, render_eq, List.cons_append, chars_enter, chars_append,
        chars_constructPieces node.construct ih]
      exact List.append_nil _

theorem chars_constructPieces_eq (node : Node) :
    chars (constructPieces node.construct) = node.render.toList := by
  rw [← chars_pieces, pieces_eq, List.cons_append, chars_enter, chars_append, chars_leave,
    chars_nil, List.append_nil]

end Node
end Stylesheet
