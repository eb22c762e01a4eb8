import Mathlib.Data.List.Basic
import Mathlib.Data.List.Flatten
import Stylesheet.Node.OverRun
import Stylesheet.Proofs.Node.Starts

/-!
# Nodes that begin with tokens

A mark is where something came from and the first character it is written with.  Nodes are
traced to a run when the marks of the tracked nodes among them are marks of its tokens, in the
order of the run.  Nodes that are traced to no tokens hold no tracked node.
-/

namespace Stylesheet

namespace Construct

/-- A construct writes a text before anything else. -/
def WritesFirst (construct : Construct Node) (written : String) : Prop :=
  exists pieces, Node.constructPieces construct = .text written :: pieces

namespace WritesFirst

variable {construct : Construct Node} {written : String}

theorem leads (h : construct.WritesFirst written) (hne : written ≠ "") :
    Piece.Leads (Node.constructPieces construct) := by
  rcases h with ⟨pieces, hpieces⟩
  rw [hpieces]
  exact Or.inl hne

theorem head? (h : construct.WritesFirst written) (hne : written ≠ "") :
    (Node.renderConstruct construct).toList.head? = written.toList.head? := by
  rcases h with ⟨pieces, hpieces⟩
  have hchars := Node.chars_constructPieces_eq (Node.ofConstruct construct)
  change Piece.chars (Node.constructPieces construct) = _ at hchars
  rw [Node.render_eq, hpieces, Piece.chars_text] at hchars
  change _ = (Node.renderConstruct construct).toList at hchars
  rw [← hchars, List.head?_append_of_ne_nil _ (by simpa using hne)]

end WritesFirst

theorem writesFirst_attribute (name : String) (matcher : Option String) (content : Option Node)
    (flags : Option String) :
    (attributeSelector name matcher content flags).WritesFirst "[" := by
  cases matcher with
  | none => exact ⟨_, by simp only [Node.constructPieces]; rfl⟩
  | some matcher => exact ⟨_, by simp only [Node.constructPieces]; rfl⟩

end Construct

/-- A source with a position in it, and a first character. -/
structure Mark where
  origin : Option (String × Position)
  first : Option Char

/-- The mark of a token of a source. -/
def Token.mark (sourceName : String) (token : Token) : Mark :=
  ⟨some (sourceName, token.start), token.text.toList.head?⟩

namespace Node

/-- The mark of a node. -/
def mark (node : Node) : Mark :=
  ⟨node.location.map fun location => (location.sourceName, location.start),
    node.render.toList.head?⟩

/-- The marks of the tracked nodes of a tree, in document order. -/
def marks (node : Node) : List Mark :=
  (node.preorder.filter isTracked).map mark

theorem marks_eq (node : Node) :
    node.marks =
      (if node.isTracked then [node.mark] else []) ++ node.construct.children.flatMap marks := by
  have hchildren :
      ((node.construct.children.flatMap preorder).filter isTracked).map mark =
        node.construct.children.flatMap marks := by
    rw [List.filter_flatMap, List.map_flatMap]
    rfl
  unfold marks at hchildren ⊢
  rw [preorder_eq, List.filter_cons]
  split
  · rw [List.map_cons, hchildren]
    rfl
  · exact hchildren

/-- All children of a node are written, and a tracked node leads with something written. -/
structure IsRegular (node : Node) : Prop where
  written : node.construct.writtenChildren = node.construct.children
  leads : node.isTracked = true -> Piece.Leads (constructPieces node.construct)

/-- A tree of regular nodes. -/
def Regular (node : Node) : Prop :=
  forall inner, inner ∈ node.preorder -> inner.IsRegular

theorem regular_iff {node : Node} :
    node.Regular <->
      node.IsRegular ∧ forall child, child ∈ node.construct.children -> child.Regular := by
  unfold Regular
  rw [preorder_eq, List.forall_mem_cons, List.forall_mem_flatMap]

/-- All children of a node that is not tracked are written. -/
theorem isRegular_of_untracked {node : Node} (htracked : node.isTracked = false)
    (hwritten : node.construct.writtenChildren = node.construct.children) : node.IsRegular :=
  ⟨hwritten, fun h => absurd h (ne_true_of_eq_false htracked)⟩

end Node

/-- Nodes are regular throughout, and their marks are marks of a run in its order. -/
structure Traced (sourceName : String) (run : List Token) (nodes : List Node) : Prop where
  regular : forall node, node ∈ nodes -> node.Regular
  marks : (nodes.flatMap Node.marks).Sublist (run.map (Token.mark sourceName))

namespace Traced

variable {sourceName : String} {run more : List Token} {nodes others : List Node}

theorem nil (sourceName : String) (run : List Token) : Traced sourceName run [] where
  regular := by
    intro node hnode
    cases hnode
  marks := List.nil_sublist _

theorem mono (h : Traced sourceName run nodes) (hrun : run.Sublist more) :
    Traced sourceName more nodes :=
  ⟨h.regular, h.marks.trans (hrun.map _)⟩

theorem sublist (h : Traced sourceName run nodes) (hnodes : others.Sublist nodes) :
    Traced sourceName run others where
  regular := by
    intro node hnode
    exact h.regular node (hnodes.subset hnode)
  marks := (hnodes.flatMap Node.marks).trans h.marks

theorem append (h : Traced sourceName run nodes) (h' : Traced sourceName more others) :
    Traced sourceName (run ++ more) (nodes ++ others) where
  regular := by
    intro node hnode
    rcases List.mem_append.mp hnode with hnode | hnode
    · exact h.regular node hnode
    · exact h'.regular node hnode
  marks := by
    rw [List.flatMap_append, List.map_append]
    exact h.marks.append h'.marks

theorem cons {node : Node} (h : Traced sourceName run [node])
    (h' : Traced sourceName more nodes) : Traced sourceName (run ++ more) (node :: nodes) :=
  h.append h'

theorem of_forall (h : forall node, node ∈ nodes -> Traced sourceName [] [node]) :
    Traced sourceName [] nodes := by
  induction nodes with
  | nil => exact nil sourceName []
  | cons node rest ih =>
      exact (h node List.mem_cons_self).cons
        (ih fun other hother => h other (List.mem_cons_of_mem node hother))

theorem reverse (h : Traced sourceName [] nodes) : Traced sourceName [] nodes.reverse := by
  refine of_forall ?_
  intro node hnode
  exact h.sublist (List.singleton_sublist.mpr (List.mem_reverse.mp hnode))

/-- A node that is not tracked is traced as its children are. -/
theorem untracked {node : Node} (htracked : node.isTracked = false)
    (hwritten : node.construct.writtenChildren = node.construct.children)
    (h : Traced sourceName run node.construct.children) : Traced sourceName run [node] where
  regular := by
    intro other hother
    rcases List.mem_singleton.mp hother with rfl
    exact Node.regular_iff.mpr ⟨Node.isRegular_of_untracked htracked hwritten, h.regular⟩
  marks := by
    rw [List.flatMap_singleton, Node.marks_eq, if_neg (ne_true_of_eq_false htracked),
      List.nil_append]
    exact h.marks

/-- A tracked node that begins with a token is traced when its children are traced behind it. -/
theorem tracked {node : Node} {token : Token} (hmark : node.mark = token.mark sourceName)
    (hwritten : node.construct.writtenChildren = node.construct.children)
    (hleads : Piece.Leads (Node.constructPieces node.construct))
    (h : Traced sourceName run node.construct.children) :
    Traced sourceName (token :: run) [node] where
  regular := by
    intro other hother
    rcases List.mem_singleton.mp hother with rfl
    exact Node.regular_iff.mpr ⟨⟨hwritten, fun _ => hleads⟩, h.regular⟩
  marks := by
    rw [List.flatMap_singleton, Node.marks_eq, List.map_cons]
    split
    · rw [hmark, List.singleton_append]
      exact h.marks.cons_cons _
    · rw [List.nil_append]
      exact h.marks.cons _

/-- A node without children that is not tracked is traced to no token. -/
theorem leaf {node : Node} (htracked : node.isTracked = false)
    (hchildren : node.construct.children = []) : Traced sourceName [] [node] := by
  refine untracked htracked ?_ (hchildren ▸ nil sourceName [])
  unfold Construct.writtenChildren
  split
  · exact hchildren.symm
  · rfl

end Traced

namespace Location

theorem ofRun_cons (sourceName : String) (token : Token) (rest : List Token) :
    exists stop, ofRun (some sourceName) (token :: rest) =
      some ⟨sourceName, token.start, stop⟩ := by
  unfold ofRun
  rw [List.head?_cons, List.getLast?_cons]
  exact ⟨_, rfl⟩

end Location

/-- A node over a run that begins with a token has the mark of the token if it has its character. -/
theorem Node.mark_spanning {sourceName : String} {token : Token} {rest : List Token}
    {construct : Construct Node}
    (h : (renderConstruct construct).toList.head? = token.text.toList.head?) :
    (Node.spanning (some sourceName) (token :: rest) construct).mark =
      token.mark sourceName := by
  rcases Location.ofRun_cons sourceName token rest with ⟨stop, hlocation⟩
  unfold mark spanning Token.mark
  rw [hlocation, render_eq, h]
  rfl

end Stylesheet
