import Stylesheet.Proofs.Mapping.Stretches
import Stylesheet.Proofs.Node.Chunks

/-!
# What a writer tells its recorder

A writer follows the pieces of nodes.  Main statement: it writes the texts of the nodes one behind
another, and its recorder is told of each node that is written where the text of the node begins
and where it ends, the one in pre-order and the other in post-order.
-/

namespace Stylesheet

/-! ## Nodes that are written -/

namespace Node

theorem sizeOf_lt_of_mem_writtenChildren {node child : Node}
    (h : child ∈ node.construct.writtenChildren) : sizeOf child < sizeOf node := by
  have hlt := sizeOf_lt_of_mem_children (Construct.writtenChildren_subset node.construct h)
  cases node
  simp only [mk.sizeOf_spec] at hlt ⊢
  omega

/-- A node and the nodes within it that are written, each before those within it. -/
def writtenPreorder (node : Node) : List Node :=
  node :: node.construct.writtenChildren.attach.flatMap fun ⟨child, _h⟩ => child.writtenPreorder
termination_by sizeOf node
decreasing_by exact sizeOf_lt_of_mem_writtenChildren _h

/-- A node and the nodes within it that are written, each behind those within it. -/
def writtenPostorder (node : Node) : List Node :=
  (node.construct.writtenChildren.attach.flatMap fun ⟨child, _h⟩ => child.writtenPostorder) ++
    [node]
termination_by sizeOf node
decreasing_by exact sizeOf_lt_of_mem_writtenChildren _h

theorem writtenPreorder_eq (node : Node) :
    node.writtenPreorder = node :: node.construct.writtenChildren.flatMap writtenPreorder := by
  rw [writtenPreorder, List.flatMap_subtype, List.unattach_attach]
  intro child hchild
  rfl

theorem writtenPostorder_eq (node : Node) :
    node.writtenPostorder =
      node.construct.writtenChildren.flatMap writtenPostorder ++ [node] := by
  rw [writtenPostorder, List.flatMap_subtype, List.unattach_attach]
  intro child hchild
  rfl

end Node

/-- The place behind a text: its line feeds, and the characters behind the last of them. -/
def Place.behind (text : List Char) : Place :=
  ⟨text.count '\n', lastLineLength text⟩

theorem Place.start_after (text : List Char) : start.after text = behind text := by
  rw [← Position.place_start_after, Position.after_start]
  unfold Position.place behind
  rw [Nat.add_sub_cancel_left, Nat.add_sub_cancel_left]

/-! ## Calls -/

namespace Recorder

namespace Call

/-- The node that starts. -/
def entered : Call -> Option Node
  | enter node _ => some node
  | leave _ _ => none

/-- The node that ends. -/
def left : Call -> Option Node
  | enter _ _ => none
  | leave node _ => some node

end Call

/--
The calls for chunks that are written behind a text.  A node starts behind that text and ends
behind that text and its own; between the two stand the calls for its chunks.
-/
inductive Told : List Char -> List Chunk -> List Call -> Prop
  | nil (before : List Char) : Told before [] []
  | text {before : List Char} {chunks : List Chunk} {calls : List Call} (written : String)
      (h : Told (before ++ written.toList) chunks calls) :
      Told before (.text written :: chunks) calls
  | node {before : List Char} {chunks : List Chunk} {inner calls : List Call} (node : Node)
      (hinner : Told before (Chunk.ofConstruct node.construct) inner)
      (h : Told (before ++ node.render.toList) chunks calls) :
      Told before (.node node :: chunks)
        (.enter node (.behind before) :: inner ++
          .leave node (.behind (before ++ node.render.toList)) :: calls)

namespace Told

variable {before : List Char} {chunks : List Chunk} {calls : List Call}

/-- Nodes start in pre-order. -/
theorem entered_eq (h : Told before chunks calls) :
    calls.filterMap Call.entered = (Chunk.nodes chunks).flatMap Node.writtenPreorder := by
  induction h with
  | nil before => rfl
  | text written h ih => exact ih
  | node node hinner h ihinner ih =>
      rw [Chunk.nodes_ofConstruct] at ihinner
      rw [Chunk.nodes, List.flatMap_cons, Node.writtenPreorder_eq, ← ihinner, ← ih,
        List.filterMap_append]
      rfl

/-- Nodes end in post-order. -/
theorem left_eq (h : Told before chunks calls) :
    calls.filterMap Call.left = (Chunk.nodes chunks).flatMap Node.writtenPostorder := by
  induction h with
  | nil before => rfl
  | text written h ih => exact ih
  | node node hinner h ihinner ih =>
      rw [Chunk.nodes_ofConstruct] at ihinner
      rw [Chunk.nodes, List.flatMap_cons, Node.writtenPostorder_eq, ← ihinner, ← ih,
        List.append_assoc, List.filterMap_append]
      rfl

end Told
end Recorder

/-! ## Writing -/

namespace Writer

open Recorder (Call Told hear)

/-- The calls that a writer makes while it writes pieces. -/
def calls (writer : Writer) : List Piece -> List Call
  | [] => []
  | .text written :: rest => (writer.piece (.text written)).calls rest
  | .enter node :: rest =>
      .enter node writer.output.place :: (writer.piece (.enter node)).calls rest
  | .leave node :: rest =>
      .leave node writer.output.place :: (writer.piece (.leave node)).calls rest

/-- A recorder hears the calls, and nothing else changes it. -/
theorem recorder_foldl_piece (pieces : List Piece) (writer : Writer) :
    (pieces.foldl piece writer).recorder =
      writer.recorder.map fun recorder => (writer.calls pieces).foldl hear recorder := by
  induction pieces generalizing writer with
  | nil => exact Option.map_id'.symm
  | cons first rest ih =>
      rw [List.foldl_cons, ih]
      cases first with
      | text written => rfl
      | enter node => exact Option.map_map _ _ _
      | leave node => exact Option.map_map _ _ _

theorem calls_append (left right : List Piece) (writer : Writer) :
    writer.calls (left ++ right) =
      writer.calls left ++ (left.foldl piece writer).calls right := by
  induction left generalizing writer with
  | nil => rfl
  | cons first rest ih =>
      rw [List.cons_append, List.foldl_cons]
      cases first with
      | text written => exact ih _
      | enter node => exact congrArg (_ :: ·) (ih _)
      | leave node => exact congrArg (_ :: ·) (ih _)

/-- A writer has written a text. -/
def IsBehind (writer : Writer) (before : List Char) : Prop :=
  writer.output.place = .behind before

theorem isBehind_start (recorder : Option Recorder) : (start recorder).IsBehind [] := rfl

theorem IsBehind.foldl_piece {writer : Writer} {before : List Char} (h : writer.IsBehind before)
    (pieces : List Piece) :
    (pieces.foldl piece writer).IsBehind (before ++ Piece.chars pieces) := by
  unfold IsBehind at h ⊢
  rw [Writer.foldl_piece, h, ← Place.start_after, ← Place.start_after, Place.after_append]

/-- Around the calls for its construct a node starts and ends. -/
theorem IsBehind.calls_pieces {writer : Writer} {before : List Char} (h : writer.IsBehind before)
    (node : Node) :
    writer.calls node.pieces =
      .enter node (.behind before) ::
        (writer.piece (.enter node)).calls (Node.constructPieces node.construct) ++
          [.leave node (.behind (before ++ node.render.toList))] := by
  have hend := h.foldl_piece (.enter node :: Node.constructPieces node.construct)
  rw [Piece.chars_enter, Node.chars_constructPieces_eq] at hend
  rw [Node.pieces_eq, calls_append, calls, calls, calls, hend, h]

/-- The calls for chunks are told if those for the constructs of their nodes are. -/
theorem told_of_nodes {chunks : List Chunk}
    (hnodes : forall node, node ∈ Chunk.nodes chunks ->
      forall {writer : Writer} {before : List Char}, writer.IsBehind before ->
        Told before (Chunk.ofConstruct node.construct)
          (writer.calls (Node.constructPieces node.construct)))
    {writer : Writer} {before : List Char} (h : writer.IsBehind before) :
    Told before chunks (writer.calls (chunks.flatMap Chunk.pieces)) := by
  induction chunks generalizing writer before with
  | nil => exact Told.nil before
  | cons chunk rest ih =>
      rw [List.flatMap_cons]
      cases chunk with
      | text written =>
          have hrest := ih hnodes (h.foldl_piece [.text written])
          rw [Piece.chars_text, Piece.chars_nil, List.append_nil] at hrest
          exact Told.text written hrest
      | node node =>
          have hinner := hnodes node List.mem_cons_self (h.foldl_piece [.enter node])
          have hrest := ih (fun child hchild => hnodes child (List.mem_cons_of_mem node hchild))
            (h.foldl_piece node.pieces)
          rw [Piece.chars_enter, Piece.chars_nil, List.append_nil] at hinner
          rw [Node.chars_pieces] at hrest
          have htold := Told.node node hinner hrest
          rw [Chunk.pieces, calls_append, h.calls_pieces, List.append_assoc]
          exact htold

/-- The calls for the construct of a node are told, wherever the node is written. -/
theorem told_constructPieces (node : Node) {writer : Writer} {before : List Char}
    (h : writer.IsBehind before) :
    Told before (Chunk.ofConstruct node.construct)
      (writer.calls (Node.constructPieces node.construct)) := by
  induction node using Node.induction generalizing writer before with
  | step node ih =>
      rw [← Chunk.pieces_ofConstruct]
      refine told_of_nodes ?_ h
      intro child hchild writer before h
      rw [Chunk.nodes_ofConstruct] at hchild
      exact ih child (Construct.writtenChildren_subset node.construct hchild) h

/-- The calls that a writer makes while it writes nodes one behind another. -/
def nodeCalls (writer : Writer) (nodes : List Node) : List Call :=
  writer.calls (nodes.flatMap Node.pieces)

/--
Nodes that are written one behind another are written as their texts, which are made of their
chunks.  A recorder hears of every node that is written where the node starts and where it ends,
the starts in pre-order and the ends in post-order.
-/
theorem rendered_and_told (nodes : List Node) (recorder : Option Recorder) :
    (forall node : Node,
      node.render = String.join ((Chunk.ofConstruct node.construct).map Chunk.render)) ∧
    (nodes.foldl node (start recorder)).output.text = String.join (nodes.map Node.render) ∧
    (nodes.foldl node (start recorder)).recorder =
      recorder.map (fun recorder' => ((start recorder).nodeCalls nodes).foldl hear recorder') ∧
    Told [] (Chunk.row nodes) ((start recorder).nodeCalls nodes) ∧
    ((start recorder).nodeCalls nodes).filterMap Call.entered =
      nodes.flatMap Node.writtenPreorder ∧
    ((start recorder).nodeCalls nodes).filterMap Call.left =
      nodes.flatMap Node.writtenPostorder := by
  have hpieces : (Chunk.row nodes).flatMap Chunk.pieces = nodes.flatMap Node.pieces :=
    List.flatMap_map _ _ nodes
  have htold : Told [] (Chunk.row nodes) ((start recorder).nodeCalls nodes) := by
    rw [nodeCalls, ← hpieces]
    exact told_of_nodes (fun node _ _ _ => told_constructPieces node) (isBehind_start recorder)
  have hentered := htold.entered_eq
  have hleft := htold.left_eq
  rw [Chunk.nodes_row] at hentered hleft
  refine ⟨fun node => (Chunk.join_ofConstruct node).symm, ?_, ?_, htold, hentered, hleft⟩
  · rw [foldl_node, Writer.foldl_piece, ← hpieces, Chunk.chars_flatMap_pieces, start,
      Output.empty, String.empty_append, String.ofList_toList, Chunk.row, List.map_map]
    rfl
  · rw [foldl_node, recorder_foldl_piece]
    rfl

end Writer
end Stylesheet
