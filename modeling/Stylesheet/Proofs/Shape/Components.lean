import Stylesheet.Proofs.Lists
import Stylesheet.Proofs.Media.Derivation
import Stylesheet.Proofs.Shape.Basic
import Stylesheet.Proofs.Token.Run
import Stylesheet.Proofs.Value.Derivation

/-!
# The shape of components and media queries
-/

namespace Stylesheet

open Node

variable {source : SourceName}

namespace Value

/-! ## Normal whitespace -/

/-- Two neighbours as they stand in a row with normal whitespace. -/
def MayAdjoin (left right : Node) : Prop :=
  (left.isWhiteSpace = true -> right.isWhiteSpace = false ∧ isTight right = false) ∧
    (right.isWhiteSpace = true -> isTight left = false)

theorem mayAdjoin_of_not_whiteSpace {left right : Node} (hleft : left.isWhiteSpace = false)
    (hright : right.isWhiteSpace = false) : MayAdjoin left right := by
  constructor
  · intro h
    exact absurd h (ne_true_of_eq_false hleft)
  · intro h
    exact absurd h (ne_true_of_eq_false hright)

/-- The whitespace in a gap is beside two nodes that need it. -/
theorem mayAdjoin_gap {before space : Option Node} {left right piece : Node}
    (hleft : left.isWhiteSpace = false) (hright : right.isWhiteSpace = false)
    (hbefore : before = some left) (hgap : gap before space right = [piece]) :
    MayAdjoin left piece ∧ MayAdjoin piece right := by
  subst hbefore
  unfold gap at hgap
  split at hgap
  · split at hgap
    · cases hgap
    · rename_i before _ hbefore htight
      cases hbefore
      rw [Bool.or_eq_true, not_or, Bool.not_eq_true, Bool.not_eq_true] at htight
      refine ⟨⟨?_, fun _ => htight.left⟩, fun _ => ⟨hright, htight.right⟩, ?_⟩
      · intro h
        exact absurd h (ne_true_of_eq_false hleft)
      · intro h
        exact absurd h (ne_true_of_eq_false hright)
  · cases hgap

theorem isChain_normalizeAfter {before space : Option Node}
    (hbefore : forall node, node ∈ before -> node.isWhiteSpace = false)
    (hspace : forall node, node ∈ space -> node.isWhiteSpace = true) (nodes : List Node) :
    (before.toList ++ normalizeAfter before space nodes).IsChain MayAdjoin := by
  induction nodes generalizing before space with
  | nil => cases before <;> simp [normalizeAfter]
  | cons node rest ih =>
      cases hnode : node.isWhiteSpace with
      | true =>
          rw [normalizeAfter_whiteSpace hnode]
          refine ih hbefore ?_
          cases space with
          | none =>
              rintro _ ⟨⟩
              exact hnode
          | some piece => exact hspace
      | false =>
          have hrest : ((some node).toList ++ normalizeAfter (some node) none rest).IsChain
              MayAdjoin := ih (by rintro _ ⟨⟩; exact hnode) (by rintro _ ⟨⟩)
          rw [normalizeAfter_node hnode]
          rw [Option.toList_some, List.singleton_append] at hrest
          cases before with
          | none => exact hrest
          | some before =>
              have hbefore := hbefore before rfl
              rw [Option.toList_some, List.singleton_append]
              rcases gap_eq (some before) space node with hgap | ⟨piece, _, hgap⟩
              · rw [hgap, List.nil_append, List.isChain_cons_cons]
                exact ⟨mayAdjoin_of_not_whiteSpace hbefore hnode, hrest⟩
              · rcases mayAdjoin_gap hbefore hnode rfl hgap with ⟨hleft, hright⟩
                rw [hgap, List.singleton_append, List.isChain_cons_cons, List.isChain_cons_cons]
                exact ⟨hleft, hright, hrest⟩

theorem isNormal_normalize (nodes : List Node) : IsNormal (normalize nodes) where
  begins := by
    intro first hfirst
    rcases normalizeAfter_begins none nodes with hnil | ⟨node, back, heq, hnode⟩
    · rw [normalize, hnil] at hfirst
      cases hfirst
    · rw [normalize, heq] at hfirst
      cases hfirst
      exact hnode
  ends := by
    intro last hlast
    rcases normalizeAfter_ends none none nodes with hnil | ⟨front, node, heq, hnode⟩
    · rw [normalize, hnil] at hlast
      cases hlast
    · rw [normalize, heq, List.getLast?_concat] at hlast
      cases hlast
      exact hnode
  apart := @isChain_normalizeAfter none none (by rintro _ ⟨⟩) (by rintro _ ⟨⟩) nodes

/-- A node that is not whitespace is normal by itself. -/
theorem isNormal_singleton {node : Node} (h : node.isWhiteSpace = false) : IsNormal [node] where
  begins := by
    rintro _ ⟨⟩
    exact h
  ends := by
    rintro _ ⟨⟩
    exact h
  apart := List.isChain_singleton node

/-! ## Components -/

theorem isInline_single {token : Token} {construct : Construct Node}
    (h : single? source token = some construct) : (ofToken source token construct).IsInline := by
  cases readsSingle_of_single? h with
  | address =>
      refine isInline_of_children trivial NodeType.noConfusion ?_
      intro child hchild
      rw [List.mem_singleton.mp hchild]
      exact isInline_leaf trivial NodeType.noConfusion rfl
  | _ => exact isInline_leaf trivial NodeType.noConfusion rfl

theorem isInline_group {run : List Token} {opener : TokenKind} {children : List Node}
    (hnormal : IsNormal children) (h : forall child, child ∈ children -> child.IsInline) :
    (spanning source run (group opener children)).IsInline := by
  unfold group
  split
  · split
    · rename_i address _ haddress
      refine isInline_of_children trivial NodeType.noConfusion ?_
      intro child hchild
      rw [List.mem_singleton.mp hchild]
      refine h address ?_
      rw [(loneString?_eq_some_iff.mp haddress).left]
      exact List.mem_cons_self
    · exact isInline_of_children hnormal NodeType.noConfusion h
  · exact isInline_of_children hnormal NodeType.noConfusion h
  · exact isInline_of_children hnormal NodeType.noConfusion h

theorem Reads.isInline {run : List Token} {nodes : List Node} (h : Reads source run nodes) :
    forall node, node ∈ nodes -> node.IsInline := by
  induction h with
  | nil =>
      intro node hnil
      cases hnil
  | single hsingle hrest ih => exact List.forall_mem_cons.mpr ⟨isInline_single hsingle, ih⟩
  | @group opener closer rest content after children nodes _ _ _ _ ihcontent ihafter =>
      refine List.forall_mem_cons.mpr ⟨?_, ihafter⟩
      refine isInline_group (isNormal_normalize children) ?_
      intro child hchild
      exact ihcontent child ((normalize_sublist children).subset hchild)

theorem isInline_components? {run : List Token} {nodes : List Node}
    (h : components? source run = some nodes) :
    IsNormal nodes ∧ forall node, node ∈ nodes -> node.IsInline := by
  rcases Option.map_eq_some_iff.mp h with ⟨spaced, hspaced, rfl⟩
  refine ⟨isNormal_normalize spaced, ?_⟩
  intro node hnode
  exact (reads_of_spacedComponents? hspaced).isInline node
    ((normalize_sublist spaced).subset hnode)

theorem isInline_ofRun (source : SourceName) (run : List Token) :
    (ofRun source run).IsInline ∧ (ofRun source run).type ∈ [.value, .raw] := by
  unfold ofRun
  split
  · rename_i children hchildren
    rcases isInline_components? hchildren with ⟨hnormal, hinline⟩
    exact ⟨isInline_of_children hnormal NodeType.noConfusion hinline, List.mem_cons_self⟩
  · exact ⟨isInline_rawRun source _, List.mem_cons_of_mem _ List.mem_cons_self⟩

end Value

namespace Media

theorem isInline_feature? {content run : List Token} {construct : Construct Node}
    (h : feature? source content = some construct) :
    (spanning source run construct).IsInline ∧
      (spanning source run construct).isWhiteSpace = false := by
  cases feature?_eq_some_iff.mp h with
  | named => exact ⟨isInline_leaf trivial NodeType.noConfusion rfl, rfl⟩
  | valued _ _ _ _ hvalue =>
      refine ⟨isInline_of_children trivial NodeType.noConfusion ?_, rfl⟩
      intro child hchild
      rw [List.mem_singleton.mp hchild]
      rcases isFeatureValue_of_featureValue? hvalue with ⟨kinds, -, hkinds⟩
      cases hkinds <;> exact isInline_leaf trivial NodeType.noConfusion rfl

theorem addSpace_subset (space : Node) (parts : List Node) :
    parts ⊆ addSpace space parts ∧ addSpace space parts ⊆ space :: parts := by
  unfold addSpace
  split
  · exact ⟨List.Subset.refl _, List.nil_subset _⟩
  · split
    · exact ⟨List.Subset.refl _, List.subset_cons_self _ _⟩
    · exact ⟨List.subset_cons_self _ _, List.Subset.refl _⟩

/-- Only whitespace is removed from the end. -/
theorem mem_dropSpace {parts : List Node} {node : Node} (h : node.isWhiteSpace = false) :
    node ∈ dropSpace parts <-> node ∈ parts := by
  unfold dropSpace
  split
  · exact Iff.rfl
  · split
    · rename_i hlast
      rw [List.mem_cons]
      refine (or_iff_right ?_).symm
      rintro rfl
      exact absurd hlast (ne_true_of_eq_false h)
    · exact Iff.rfl

theorem dropSpace_subset (parts : List Node) : dropSpace parts ⊆ parts := by
  unfold dropSpace
  split
  · exact List.Subset.refl _
  · split
    · exact List.subset_cons_self _ _
    · exact List.Subset.refl _

theorem Reads.isInline {parts nodes : List Node} {run : List Token}
    (h : Reads source parts run nodes) (hparts : forall part, part ∈ parts -> part.IsInline) :
    forall node, node ∈ nodes -> node.IsInline := by
  induction h with
  | done parts =>
      intro node hnode
      exact hparts node (dropSpace_subset parts (List.mem_reverse.mp hnode))
  | trivia htrivia hrest ih =>
      refine ih ?_
      intro part hpart
      rcases List.mem_cons.mp ((addSpace_subset _ _).right hpart) with rfl | hpart
      · exact isInline_leaf trivial NodeType.noConfusion rfl
      · exact hparts part hpart
  | word hkind hrest ih =>
      refine ih (List.forall_mem_cons.mpr ⟨?_, hparts⟩)
      exact isInline_leaf trivial NodeType.noConfusion rfl
  | feature hkind hgroup hfeature hrest ih =>
      exact ih (List.forall_mem_cons.mpr ⟨(isInline_feature? hfeature).left, hparts⟩)

/-- A part of a query that is not whitespace stays. -/
theorem Reads.mem {parts nodes : List Node} {run : List Token} {node : Node}
    (h : Reads source parts run nodes) (hspace : node.isWhiteSpace = false)
    (hnode : node ∈ parts) : node ∈ nodes := by
  induction h with
  | done parts => exact List.mem_reverse.mpr ((mem_dropSpace hspace).mpr hnode)
  | trivia htrivia hrest ih => exact ih ((addSpace_subset _ _).left hnode)
  | word hkind hrest ih => exact ih (List.mem_cons_of_mem _ hnode)
  | feature hkind hgroup hfeature hrest ih => exact ih (List.mem_cons_of_mem _ hnode)

/-- A query whose first token is no trivia has a first part. -/
theorem Reads.ne_nil {nodes : List Node} {token : Token} {rest : List Token}
    (h : Reads source [] (token :: rest) nodes) (htoken : token.isTrivia = false) :
    nodes ≠ [] := by
  cases h with
  | trivia htrivia hrest => exact absurd htrivia (ne_true_of_eq_false htoken)
  | word hkind hrest => exact List.ne_nil_of_mem (hrest.mem rfl List.mem_cons_self)
  | feature hkind hgroup hfeature hrest =>
      exact List.ne_nil_of_mem
        (hrest.mem (isInline_feature? hfeature).right List.mem_cons_self)

theorem isInline_query? {part : List Token} {node : Node}
    (h : query? source (Run.trim part) = some node) :
    node.IsInline ∧ node.type = .mediaQuery := by
  rcases reads_of_query? h with ⟨hne, parts, hparts, rfl⟩
  refine ⟨isInline_of_children ?_ NodeType.noConfusion ?_, rfl⟩
  · cases hrun : Run.trim part with
    | nil => exact absurd hrun hne
    | cons token rest =>
        rw [hrun] at hparts
        exact hparts.ne_nil (Run.not_trivia_of_trim_eq_cons hrun)
  · refine hparts.isInline ?_
    intro part hnil
    cases hnil

theorem isInline_queryList? {run : List Token} {node : Node}
    (h : queryList? source run = some node) :
    node.IsInline ∧ node.isWhiteSpace = false := by
  rcases Option.map_eq_some_iff.mp h with ⟨queries, hqueries, rfl⟩
  have hall : forall query, query ∈ queries -> query.IsInline ∧ query.type = .mediaQuery := by
    intro query hquery
    rcases exists_of_mem_mapM hqueries hquery with ⟨part, _, hpart⟩
    exact isInline_query? hpart
  refine ⟨isInline_of_children ⟨?_, fun query hquery => (hall query hquery).right⟩
    NodeType.noConfusion fun query hquery => (hall query hquery).left, rfl⟩
  rintro rfl
  have hparts := mapM_eq_some_iff.mp hqueries
  rw [List.forall₂_nil_right_iff] at hparts
  exact Run.splitTopLevel_ne_nil _ _ _ hparts

theorem isInline_prelude? {name : String} {run : List Token} {node : Node}
    (h : prelude? source name run = some node) :
    node.IsInline ∧ node.type = .atRulePrelude := by
  simp only [prelude?] at h
  split at h
  · cases h
  · cases h
    have hnodes : Value.IsNormal (preludeNodes source name (Run.trim run)) ∧
        forall node, node ∈ preludeNodes source name (Run.trim run) -> node.IsInline := by
      simp only [preludeNodes]
      split
      · rename_i list hlist
        split at hlist
        · rcases isInline_queryList? hlist with ⟨hinline, hspace⟩
          exact ⟨Value.isNormal_singleton hspace,
            List.forall_mem_singleton.mpr hinline⟩
        · cases hlist
      · cases hcomponents : Value.components? source (Run.trim run) with
        | none =>
            exact ⟨Value.isNormal_singleton rfl,
              List.forall_mem_singleton.mpr (isInline_rawRun source _)⟩
        | some nodes => exact Value.isInline_components? hcomponents
    exact ⟨isInline_of_children hnodes.left NodeType.noConfusion hnodes.right, rfl⟩

end Media

end Stylesheet
