import Stylesheet.Mapping.Recorder
import Stylesheet.Proofs.Node.Chunks

/-!
# Where the nodes of a tree start

The pieces of a construct are those of its children with texts between them.  Main
statements: the nodes of a tree start in document order, each of them where its own rendering
begins, and no two tracked nodes start at one place if each writes something first.
-/

namespace Stylesheet

/-! ## Children among texts -/

/-- Pieces that are those of nodes, one after another, with texts between them. -/
inductive Weave : List Node -> List Piece -> Prop
  | nil : Weave [] []
  | text {nodes : List Node} {pieces : List Piece} (written : String) (h : Weave nodes pieces) :
      Weave nodes (.text written :: pieces)
  | node {nodes : List Node} {pieces : List Piece} (node : Node) (h : Weave nodes pieces) :
      Weave (node :: nodes) (node.pieces ++ pieces)

namespace Node

open Piece

theorem weave_chunks (chunks : List Chunk) :
    Weave (Chunk.nodes chunks) (chunks.flatMap Chunk.pieces) := by
  induction chunks with
  | nil => exact Weave.nil
  | cons chunk rest ih =>
      rw [List.flatMap_cons]
      cases chunk with
      | text written => exact Weave.text written ih
      | node child => exact Weave.node child ih

theorem weave_constructPieces (construct : Construct Node) :
    Weave construct.writtenChildren (constructPieces construct) := by
  rw [← Chunk.pieces_ofConstruct, ← Chunk.nodes_ofConstruct]
  exact weave_chunks _

/-- Whether the start of a node is mapped when its location is known. -/
def isTracked (node : Node) : Bool :=
  Recorder.isTracked node.type

end Node

namespace Piece

/-! ## Starts -/

theorem map_fst_starts_of_weave {nodes : List Node} {pieces : List Piece}
    (hnodes : forall child, child ∈ nodes -> forall before,
      (starts before child.pieces).map Prod.fst = child.preorder)
    (h : Weave nodes pieces) (before : List Char) :
    (starts before pieces).map Prod.fst = nodes.flatMap Node.preorder := by
  induction h generalizing before with
  | nil => rfl
  | text written h ih => exact ih hnodes _
  | node node h ih =>
      rw [starts_append, List.map_append, hnodes node List.mem_cons_self, List.flatMap_cons,
        ih fun child hchild => hnodes child (List.mem_cons_of_mem node hchild)]

/-- The nodes of a tree whose children are all written start in document order. -/
theorem map_fst_starts_pieces {node : Node}
    (h : forall inner, inner ∈ node.preorder ->
      inner.construct.writtenChildren = inner.construct.children) (before : List Char) :
    (starts before node.pieces).map Prod.fst = node.preorder := by
  induction node using Node.induction generalizing before with
  | step node ih =>
      have hchildren : (starts before (Node.constructPieces node.construct)).map Prod.fst =
          node.construct.children.flatMap Node.preorder := by
        rw [← h node node.self_mem_preorder]
        refine map_fst_starts_of_weave ?_ (Node.weave_constructPieces node.construct) before
        intro child hchild before
        have hmem := Construct.writtenChildren_subset node.construct hchild
        refine ih child hmem ?_ before
        intro inner hinner
        exact h inner (Node.preorder_subset_of_mem_children hmem hinner)
      rw [Node.pieces_eq, List.cons_append, starts, List.map_cons, starts_append,
        List.map_append, hchildren, Node.preorder_eq]
      exact congrArg (node :: ·) (List.append_nil _)

/-- The text of a node stands in a text, behind what is written before it. -/
def StandsIn (written : List Char) (start : Node × List Char) : Prop :=
  exists after, start.2 ++ start.1.render.toList ++ after = written

theorem StandsIn.append {written : List Char} {start : Node × List Char}
    (h : StandsIn written start) (more : List Char) : StandsIn (written ++ more) start := by
  rcases h with ⟨after, rfl⟩
  exact ⟨after ++ more, by simp only [List.append_assoc]⟩

theorem standsIn_of_weave {nodes : List Node} {pieces : List Piece}
    (hnodes : forall child, child ∈ nodes -> forall before start,
      start ∈ starts before child.pieces -> StandsIn (before ++ chars child.pieces) start)
    (h : Weave nodes pieces) {before : List Char} {start : Node × List Char}
    (hstart : start ∈ starts before pieces) : StandsIn (before ++ chars pieces) start := by
  induction h generalizing before with
  | nil => cases hstart
  | text written h ih =>
      rw [chars_text, ← List.append_assoc]
      exact ih hnodes hstart
  | node node h ih =>
      rw [starts_append, List.mem_append] at hstart
      rw [chars_append, ← List.append_assoc]
      rcases hstart with hstart | hstart
      · exact (hnodes node List.mem_cons_self before start hstart).append _
      · exact ih (fun child hchild => hnodes child (List.mem_cons_of_mem node hchild)) hstart

theorem standsIn_of_mem_starts {node : Node} {before : List Char} {start : Node × List Char}
    (hstart : start ∈ starts before node.pieces) :
    StandsIn (before ++ node.render.toList) start := by
  induction node using Node.induction generalizing before start with
  | step node ih =>
      rw [Node.pieces_eq, List.cons_append, starts, starts_append, List.mem_cons,
        List.mem_append] at hstart
      rcases hstart with rfl | hstart | hstart
      · exact ⟨[], List.append_nil _⟩
      · rw [← Node.chars_constructPieces_eq]
        refine standsIn_of_weave ?_ (Node.weave_constructPieces node.construct) hstart
        intro child hchild before start hstart
        rw [Node.chars_pieces]
        exact ih child (Construct.writtenChildren_subset node.construct hchild) hstart
      · cases hstart

/-! ## Tracked nodes start apart -/

theorem prefix_of_mem_starts {pieces : List Piece} {before : List Char}
    {start : Node × List Char} (h : start ∈ starts before pieces) : before <+: start.2 := by
  induction pieces generalizing before with
  | nil => cases h
  | cons piece rest ih =>
      cases piece with
      | enter node =>
          rcases List.mem_cons.mp h with rfl | h
          · exact List.prefix_refl _
          · exact ih h
      | text written => exact (List.prefix_append _ _).trans (ih h)
      | leave node => exact ih h

/-- The starts of tracked nodes. -/
def trackedStarts (before : List Char) (pieces : List Piece) : List (Node × List Char) :=
  (starts before pieces).filter fun start => start.1.isTracked

theorem trackedStarts_append (before : List Char) (left right : List Piece) :
    trackedStarts before (left ++ right) =
      trackedStarts before left ++ trackedStarts (before ++ chars left) right := by
  unfold trackedStarts
  rw [starts_append, List.filter_append]

theorem trackedStarts_enter_tracked {node : Node} (h : node.isTracked = true)
    (before : List Char) (pieces : List Piece) :
    trackedStarts before (enter node :: pieces) =
      (node, before) :: trackedStarts before pieces :=
  List.filter_cons_of_pos h

theorem trackedStarts_enter_untracked {node : Node} (h : node.isTracked = false)
    (before : List Char) (pieces : List Piece) :
    trackedStarts before (enter node :: pieces) = trackedStarts before pieces :=
  List.filter_cons_of_neg (ne_true_of_eq_false h)

theorem prefix_of_mem_trackedStarts {pieces : List Piece} {before : List Char}
    {start : Node × List Char} (h : start ∈ trackedStarts before pieces) :
    before <+: start.2 :=
  prefix_of_mem_starts (List.mem_filter.mp h).left

/-- Something is written between the one text and the other. -/
def Precedes (left right : List Char) : Prop :=
  exists more, more ≠ [] ∧ left ++ more = right

theorem Precedes.extend {left middle right : List Char} (h : Precedes left middle)
    (h' : middle <+: right) : Precedes left right := by
  rcases h with ⟨more, hmore, rfl⟩
  rcases h' with ⟨rest, rfl⟩
  exact ⟨more ++ rest, List.append_ne_nil_of_left_ne_nil hmore rest, by rw [List.append_assoc]⟩

/-- Pieces write something before a tracked node starts among them. -/
def Leads : List Piece -> Prop
  | [] => False
  | text written :: rest => written ≠ "" ∨ Leads rest
  | enter node :: rest => node.isTracked = false ∧ Leads rest
  | leave _ :: rest => Leads rest

theorem Leads.precedes {pieces : List Piece} (h : Leads pieces) (before : List Char) :
    Precedes before (before ++ chars pieces) ∧
      forall start, start ∈ trackedStarts before pieces -> Precedes before start.2 := by
  induction pieces generalizing before with
  | nil => exact False.elim h
  | cons piece rest ih =>
      cases piece with
      | enter node =>
          rcases h with ⟨hnode, h⟩
          refine ⟨(ih h before).left, ?_⟩
          intro start hstart
          rw [trackedStarts_enter_untracked hnode] at hstart
          exact (ih h before).right start hstart
      | leave node => exact ih h before
      | text written =>
          rw [chars_text, ← List.append_assoc]
          by_cases hwritten : written = ""
          · have hrest := ih (h.resolve_left (not_not_intro hwritten)) (before ++ written.toList)
            rw [hwritten, String.toList_empty, List.append_nil] at hrest ⊢
            refine ⟨hrest.left, ?_⟩
            intro start hstart
            rw [trackedStarts, starts, String.toList_empty, List.append_nil] at hstart
            exact hrest.right start hstart
          · have hfirst : Precedes before (before ++ written.toList) :=
              ⟨written.toList, by simpa using hwritten, rfl⟩
            refine ⟨hfirst.extend (List.prefix_append _ _), ?_⟩
            intro start hstart
            change start ∈ trackedStarts (before ++ written.toList) rest at hstart
            exact hfirst.extend (prefix_of_mem_trackedStarts hstart)

theorem Leads.chars_ne_nil {pieces : List Piece} (h : Leads pieces) : chars pieces ≠ [] := by
  rcases (h.precedes []).left with ⟨more, hmore, heq⟩
  rw [List.nil_append, List.nil_append] at heq
  rw [← heq]
  exact hmore

theorem Leads.append {pieces : List Piece} (h : Leads pieces) (more : List Piece) :
    Leads (pieces ++ more) := by
  induction pieces with
  | nil => exact False.elim h
  | cons piece rest ih =>
      cases piece with
      | enter node => exact ⟨h.left, ih h.right⟩
      | text written => exact h.imp_right ih
      | leave node => exact ih h

/-- Tracked nodes start apart from each other and before the end of what is written. -/
def Apart (before : List Char) (pieces : List Piece) : Prop :=
  ((trackedStarts before pieces).Pairwise fun left right => Precedes left.2 right.2) ∧
    forall start, start ∈ trackedStarts before pieces ->
      Precedes start.2 (before ++ chars pieces)

theorem Apart.append {before : List Char} {left right : List Piece} (h : Apart before left)
    (h' : Apart (before ++ chars left) right) : Apart before (left ++ right) := by
  unfold Apart
  rw [trackedStarts_append, chars_append, ← List.append_assoc, List.pairwise_append]
  refine ⟨⟨h.left, h'.left, ?_⟩, ?_⟩
  · intro start hstart later hlater
    exact (h.right start hstart).extend (prefix_of_mem_trackedStarts hlater)
  · intro start hstart
    rcases List.mem_append.mp hstart with hstart | hstart
    · exact (h.right start hstart).extend (List.prefix_append _ _)
    · exact h'.right start hstart

theorem apart_of_weave {nodes : List Node} {pieces : List Piece}
    (hnodes : forall child, child ∈ nodes -> forall before, Apart before child.pieces)
    (h : Weave nodes pieces) (before : List Char) : Apart before pieces := by
  induction h generalizing before with
  | nil => exact ⟨List.Pairwise.nil, fun start hstart => absurd hstart List.not_mem_nil⟩
  | text written h ih =>
      have hrest := ih hnodes (before ++ written.toList)
      unfold Apart at hrest ⊢
      rw [chars_text, ← List.append_assoc]
      exact hrest
  | node node h ih =>
      exact (hnodes node List.mem_cons_self before).append
        (ih (fun child hchild => hnodes child (List.mem_cons_of_mem node hchild)) _)

theorem apart_pieces {node : Node} (h : forall inner, inner ∈ node.preorder ->
      inner.isTracked = true -> Leads (Node.constructPieces inner.construct))
    (before : List Char) : Apart before node.pieces := by
  induction node using Node.induction generalizing before with
  | step node ih =>
      have hconstruct : Apart before (Node.constructPieces node.construct) := by
        refine apart_of_weave ?_ (Node.weave_constructPieces node.construct) before
        intro child hchild before
        have hmem := Construct.writtenChildren_subset node.construct hchild
        refine ih child hmem ?_ before
        intro inner hinner
        exact h inner (Node.preorder_subset_of_mem_children hmem hinner)
      have hchars : chars node.pieces = chars (Node.constructPieces node.construct) := by
        rw [Node.chars_pieces, Node.chars_constructPieces_eq]
      have hstarts : trackedStarts before node.pieces =
          if node.isTracked then
            (node, before) :: trackedStarts before (Node.constructPieces node.construct)
          else
            trackedStarts before (Node.constructPieces node.construct) := by
        rw [Node.pieces_eq, trackedStarts, List.cons_append, starts, starts_append,
          List.filter_cons, List.filter_append]
        simp only [starts, List.filter_nil, List.append_nil]
        rfl
      unfold Apart
      rw [hstarts, hchars]
      split
      · rename_i htracked
        have hleads := (h node node.self_mem_preorder htracked).precedes before
        refine ⟨List.pairwise_cons.mpr ⟨hleads.right, hconstruct.left⟩, ?_⟩
        intro start hstart
        rcases List.mem_cons.mp hstart with rfl | hstart
        · exact hleads.left
        · exact hconstruct.right start hstart
      · exact hconstruct

end Piece
end Stylesheet
