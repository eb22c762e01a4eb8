import Stylesheet.Proofs.Node.Preorder
import Stylesheet.Proofs.Range.Sheet

/-!
# How the nodes of a tree were read

Every node of a parsed tree but the tree itself was read as a child of another: over a run of its
own, or as a block, or as what a block belongs to.  Main statement: so are all nodes of the tree
of a source, and its children are the items of the tokens.
-/

namespace Stylesheet

open Run Sheet

variable {source : SourceName} {tokens : List Token}

/-- What a block belongs to was read from tokens with the block, which is its body. -/
inductive HoldsBlock (source : SourceName) (tokens : List Token) : Node -> Node -> Prop
  | closed {front inner : List Token} {brace closer : Token} {owner : Owner} {scope : Scope}
      {children : List Node} (htokens : (front ++ brace :: inner) ++ [closer] <:+: tokens)
      (hleads : Leads source owner scope front brace) (hcloser : closer.kind = .rightBrace)
      (hinner : Items source false scope inner children) :
      HoldsBlock source tokens
        (owner.node source ((front ++ brace :: inner) ++ [closer])
          (blockOver source (brace :: inner ++ [closer]) children))
        (blockOver source (brace :: inner ++ [closer]) children)
  | unclosed {front inner : List Token} {brace last : Token} {owner : Owner} {scope : Scope}
      {children : List Node} (htokens : (front ++ brace :: inner) ++ [last] <:+: tokens)
      (hleads : Leads source owner scope front brace) (hlast : last.kind = .eof)
      (hinner : Items source true scope (inner ++ [last]) children) :
      HoldsBlock source tokens
        (owner.node source (owner.covers (front ++ brace :: inner) last)
          (blockOver source (brace :: inner ++ [last]) children))
        (blockOver source (brace :: inner ++ [last]) children)

theorem HoldsBlock.types {node body : Node} (h : HoldsBlock source tokens node body) :
    node.type ∈ [.atRule, .rule] ∧ body.type = .block := by
  cases h with
  | @closed front inner brace closer owner => exact ⟨owner.node_type_mem _ _ _, rfl⟩
  | @unclosed front inner brace last owner => exact ⟨owner.node_type_mem _ _ _, rfl⟩

/-- How a child of a node was read from tokens. -/
inductive ReadUnder (source : SourceName) (tokens : List Token) (parent : Node) : Node -> Prop
  | plain {run : List Token} {node : Node} (hrun : run <:+: tokens)
      (hover : node.Over source parent.type run) : ReadUnder source tokens parent node
  | owner {node body : Node} (h : HoldsBlock source tokens node body) :
      ReadUnder source tokens parent node
  | block {body : Node} (h : HoldsBlock source tokens parent body) :
      ReadUnder source tokens parent body

namespace Node

/-- All nodes within a tree were read as the children that they are. -/
def AllRead (source : SourceName) (tokens : List Token) (tree : Node) : Prop :=
  forall parent, parent ∈ tree.preorder ->
    forall child, child ∈ parent.construct.children -> ReadUnder source tokens parent child

theorem allRead_of_children {tree : Node}
    (h : forall child, child ∈ tree.construct.children ->
      ReadUnder source tokens tree child ∧ child.AllRead source tokens) :
    tree.AllRead source tokens := by
  unfold AllRead
  rw [preorder_eq, List.forall_mem_cons, List.forall_mem_flatMap]
  exact ⟨fun child hchild => (h child hchild).left, fun child hchild => (h child hchild).right⟩

end Node

theorem Placed.allRead {type : NodeType} {run : List Token} {nodes : List Node}
    (h : Placed source type run nodes) (hrun : run <:+: tokens) {parent : Node}
    (hparent : parent.type = type) :
    forall node, node ∈ nodes ->
      ReadUnder source tokens parent node ∧ node.AllRead source tokens := by
  induction h generalizing parent with
  | nil =>
      intro node hnode
      cases hnode
  | @cons type front inner rest node nodes hlocation hfits hempty hchildren hrest ihchildren ih =>
      subst hparent
      have hinner : inner <:+: tokens := List.IsInfix.trans ⟨front, rest, rfl⟩ hrun
      refine List.forall_mem_cons.mpr ⟨⟨?_, ?_⟩, ?_⟩
      · exact ReadUnder.plain hinner ⟨hlocation, hfits, hempty, hchildren⟩
      · exact Node.allRead_of_children (ihchildren hinner rfl)
      · exact ih ((List.suffix_append _ rest).isInfix.trans hrun) rfl

/-- What leads a block was read, and so was the block with its children. -/
theorem allRead_owner {owner : Owner} {scope : Scope} {front covered run : List Token}
    {brace : Token} {children : List Node} (hleads : Leads source owner scope front brace)
    (hfront : front <:+: tokens)
    (hblock : HoldsBlock source tokens (owner.node source covered (blockOver source run children))
      (blockOver source run children))
    (hchildren : forall child, child ∈ children ->
      (forall parent, ReadUnder source tokens parent child) ∧ child.AllRead source tokens) :
    (owner.node source covered (blockOver source run children)).AllRead source tokens := by
  have hbody : (blockOver source run children).AllRead source tokens := by
    apply Node.allRead_of_children
    intro child hchild
    exact ⟨(hchildren child hchild).left _, (hchildren child hchild).right⟩
  apply Node.allRead_of_children
  cases hleads with
  | @atRule keyword brace name run' prelude hkeyword hbrace hprelude =>
      refine List.forall_mem_append.mpr ⟨?_, ?_⟩
      · exact (hprelude.under .atRule).allRead
          ((List.suffix_cons keyword run').isInfix.trans hfront) rfl
      · exact List.forall_mem_singleton.mpr ⟨ReadUnder.block hblock, hbody⟩
  | rule hfirst hbrace hprelude =>
      refine List.forall_mem_cons.mpr ⟨?_, ?_⟩
      · exact (hprelude.under .rule).allRead hfront rfl _ List.mem_cons_self
      · exact List.forall_mem_singleton.mpr ⟨ReadUnder.block hblock, hbody⟩

theorem Sheet.Items.allRead {ends : Bool} {scope : Scope} {run : List Token} {nodes : List Node}
    (h : Items source ends scope run nodes) (hrun : run <:+: tokens) :
    forall node, node ∈ nodes ->
      (forall parent, ReadUnder source tokens parent node) ∧ node.AllRead source tokens := by
  induction h with
  | nil =>
      intro node hnode
      cases hnode
  | @skip ends scope token run nodes hskips hrest ih =>
      exact ih ((List.suffix_cons token run).isInfix.trans hrun)
  | @item ends scope inner rest node nodes hne hnode hrest ih =>
      have hinner : inner <:+: tokens := (List.prefix_append inner rest).isInfix.trans hrun
      refine List.forall_mem_cons.mpr ⟨⟨?_, ?_⟩, ?_⟩
      · intro parent
        exact ReadUnder.plain hinner (hnode.under parent.type)
      · apply Node.allRead_of_children
        exact hnode.children.allRead hinner rfl
      · exact ih ((List.suffix_append inner rest).isInfix.trans hrun)
  | @closed ends scope within front inner rest brace closer owner children nodes hleads hcloser
      hinner hrest ihinner ih =>
      have hwhole : (front ++ brace :: inner) ++ [closer] <:+: tokens :=
        (List.prefix_append _ rest).isInfix.trans hrun
      have hbehind : inner <:+: tokens :=
        List.IsInfix.trans ⟨front ++ [brace], [closer], by simp⟩ hwhole
      have hfront : front <:+: tokens :=
        List.IsInfix.trans ⟨[], brace :: inner ++ [closer], by simp⟩ hwhole
      have hblock := HoldsBlock.closed hwhole hleads hcloser hinner
      refine List.forall_mem_cons.mpr ⟨⟨?_, ?_⟩, ?_⟩
      · intro parent
        exact ReadUnder.owner hblock
      · exact allRead_owner hleads hfront hblock (ihinner hbehind)
      · exact ih ((List.suffix_append _ rest).isInfix.trans hrun)
  | @unclosed scope within front inner brace last owner children hleads hlast hinner ihinner =>
      have hbehind : inner ++ [last] <:+: tokens :=
        List.IsInfix.trans ⟨front ++ [brace], [], by simp⟩ hrun
      have hfront : front <:+: tokens :=
        List.IsInfix.trans ⟨[], brace :: inner ++ [last], by simp⟩ hrun
      have hblock := HoldsBlock.unclosed hrun hleads hlast hinner
      refine List.forall_mem_singleton.mpr ⟨?_, ?_⟩
      · intro parent
        exact ReadUnder.owner hblock
      · exact allRead_owner hleads hfront hblock (ihinner hbehind)

/-! ## The tree of a source -/

/-- How the tree of a source was read from its tokens. -/
structure Node.IsTreeOf (source : SourceName) (tokens : List Token) (tree : Node) : Prop where
  root : exists nodes, tree = Node.spanning source tokens (.styleSheet nodes) ∧
    Items source true .sheet tokens nodes
  allRead : tree.AllRead source tokens

theorem Node.isTreeOf_spanning {nodes : List Node} (h : Items source true .sheet tokens nodes) :
    (Node.spanning source tokens (.styleSheet nodes)).IsTreeOf source tokens where
  root := ⟨nodes, rfl, h⟩
  allRead := by
    apply allRead_of_children
    intro child hchild
    rcases h.allRead List.infix_rfl child hchild with ⟨hread, hall⟩
    exact ⟨hread _, hall⟩

/-- A parsed tree was read from the tokens of its source. -/
theorem isTreeOf_of_parse {text : String} {options : ParseOptions} {tree : Node}
    (h : parse text options = .ok tree) :
    exists tokens, tokenize text = .ok tokens ∧ tree.IsTreeOf options.sourceName tokens := by
  unfold parse at h
  split at h
  · cases h
  · rename_i tokens htokens
    have hscan := Token.scan_of_scanFrom htokens
    rcases hscan.lexes with ⟨body, last, rfl, hlast, hbody, _⟩
    have heof : last.kind = .eof := congrArg Token.kind hlast
    rcases items_ofTokens heof hbody (fun token htoken => hscan.isSpelled htoken) h with
      ⟨nodes, rfl, hitems⟩
    exact ⟨_, htokens, Node.isTreeOf_spanning hitems⟩

theorem ParseOptions.sourceName_of_positions {options : ParseOptions}
    (h : options.positions = true) :
    options.sourceName = some (options.filename.getD unknownSource) :=
  if_pos h

end Stylesheet
