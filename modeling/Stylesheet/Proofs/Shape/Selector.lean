import Stylesheet.Proofs.Selector.Derivation
import Stylesheet.Proofs.Shape.Basic

/-!
# The shape of selectors

While the parts of a selector are read, no two combinators stand side by side: a written one is
refused behind another, and whitespace stands for one only between two simple selectors.
-/

namespace Stylesheet
namespace Selector

open Node

variable {source : SourceName}

/-! ## Simple selectors -/

/-- A part of a selector that is no combinator. -/
structure IsOperand (node : Node) : Prop where
  inline : node.IsInline
  simple : node.isCombinator = false

theorem isOperand_leaf {construct : Construct Node} {location : Option Location}
    (hshape : construct.IsShaped) (htype : construct.type ≠ .block)
    (hsimple : construct.type ≠ .combinator) (hchildren : construct.children = []) :
    IsOperand ⟨construct, location⟩ :=
  ⟨isInline_leaf hshape htype hchildren, beq_eq_false_iff_ne.mpr hsimple⟩

theorem isOperand_attribute? {content run : List Token} {construct : Construct Node}
    (h : attribute? source content = some construct) :
    IsOperand (spanning source run construct) := by
  rcases isAttribute_of_attribute? h with ⟨tokens, -, hattribute⟩
  cases hattribute with
  | named =>
      exact isOperand_leaf ⟨rfl, fun hflags => hflags⟩ NodeType.noConfusion NodeType.noConfusion
        rfl
  | compared _ _ hvalue _ =>
      refine ⟨isInline_of_children ⟨rfl, fun _ => rfl⟩ NodeType.noConfusion ?_, rfl⟩
      intro child hchild
      rw [List.mem_singleton.mp hchild]
      cases hvalue <;> exact isInline_leaf trivial NodeType.noConfusion rfl

theorem isOperand_simple? {token : Token} {rest : List Token} {simple : Simple}
    (h : simple? source token rest = some simple) : IsOperand simple.node := by
  cases readsSimple_of_simple? h with
  | bracketed _ _ hattribute => exact isOperand_attribute? hattribute
  | _ => exact isOperand_leaf trivial NodeType.noConfusion NodeType.noConfusion rfl

theorem isOperand_pseudo (pseudo : Pseudo) (run : List Token) (child : Option Node)
    (h : forall node, node ∈ child -> node.IsInline) :
    IsOperand (spanning source run (pseudo.construct (child.map fun node => [node]))) := by
  have hshape : forall nodes, nodes ∈ child.map (fun node => [node]) -> nodes.length = 1 := by
    intro nodes hnodes
    rcases Option.map_eq_some_iff.mp hnodes with ⟨node, _, rfl⟩
    rfl
  have hchildren : forall node, node ∈ (child.map fun node => [node]).getD [] ->
      node.IsInline := by
    intro node hnode
    cases child with
    | none => cases hnode
    | some child =>
        rw [List.mem_singleton.mp hnode]
        exact h child rfl
  unfold Pseudo.construct
  split
  · exact ⟨isInline_of_children hshape NodeType.noConfusion hchildren, rfl⟩
  · exact ⟨isInline_of_children hshape NodeType.noConfusion hchildren, rfl⟩

/-! ## Arguments -/

theorem isInline_nth? {run formula : List Token} {selectors : Option Node} {node : Node}
    (hselectors : forall list, list ∈ selectors -> list.IsInline)
    (h : nth? source run formula selectors = some node) : node.IsInline := by
  rcases Option.map_eq_some_iff.mp h with ⟨construct, hconstruct, rfl⟩
  refine isInline_of_children trivial NodeType.noConfusion (List.forall_mem_cons.mpr ⟨?_, ?_⟩)
  · simp only [position?] at hconstruct
    split at hconstruct
    · cases hconstruct
      exact isInline_leaf trivial NodeType.noConfusion rfl
    · rcases Option.map_eq_some_iff.mp hconstruct with ⟨formula, _, rfl⟩
      exact isInline_leaf trivial NodeType.noConfusion rfl
  · intro list hlist
    exact hselectors list (Option.mem_toList.mp hlist)

theorem isInline_word? {run : List Token} {node : Node} (h : word? source run = some node) :
    node.IsInline := by
  rcases word?_eq_some h with ⟨word, name, -, -, rfl⟩
  exact isInline_leaf trivial NodeType.noConfusion rfl

/-! ## Rows of parts -/

/-- The parts read so far, the latest first, and the token that may become a combinator. -/
structure IsOpen (earlier : List Node) (gap : Option Token) : Prop where
  inline : forall node, node ∈ earlier -> node.IsInline
  begins : forall first, first ∈ earlier.getLast? -> first.construct ≠ .combinator " "
  apart : earlier.IsChain fun later earlier =>
    earlier.isCombinator = true -> later.isCombinator = false
  gap : gap ≠ none -> endsSimple earlier = true

namespace IsOpen

variable {earlier : List Node} {gap : Option Token}

theorem nil : IsOpen [] none where
  inline := by
    intro node hnil
    cases hnil
  begins := by
    intro first hnil
    cases hnil
  apart := List.IsChain.nil
  gap := by
    intro hnone
    exact absurd rfl hnone

theorem skip {gap' : Option Token} (h : IsOpen earlier gap)
    (hgap : gap' ≠ none -> endsSimple earlier = true) : IsOpen earlier gap' :=
  ⟨h.inline, h.begins, h.apart, hgap⟩

theorem cons {node : Node} (hinline : node.IsInline)
    (hfirst : earlier = [] -> node.construct ≠ .combinator " ")
    (hapart : endsCombinator earlier = true -> node.isCombinator = false)
    (h : IsOpen earlier gap) : IsOpen (node :: earlier) none where
  inline := List.forall_mem_cons.mpr ⟨hinline, h.inline⟩
  begins := by
    cases earlier with
    | nil =>
        rintro _ ⟨⟩
        exact hfirst rfl
    | cons latest earlier => exact h.begins
  apart := by
    refine List.isChain_cons.mpr ⟨?_, h.apart⟩
    intro latest hlatest hcombinator
    refine hapart ?_
    rcases List.head?_eq_some_iff.mp hlatest with ⟨rest, rfl⟩
    exact hcombinator
  gap := by
    intro hnone
    exact absurd rfl hnone

/-- A descendant combinator is added behind a simple selector only. -/
theorem addDescendant (h : IsOpen earlier gap) :
    IsOpen (Selector.addDescendant source gap earlier) none := by
  cases gap with
  | none => exact h
  | some token =>
      have hends := h.gap (Option.some_ne_none token)
      refine h.cons (isInline_leaf trivial NodeType.noConfusion rfl) ?_ ?_
      · rintro rfl
        cases hends
      · intro hcombinator
        cases earlier with
        | nil => cases hends
        | cons latest earlier =>
            change (!latest.isCombinator) = true at hends
            change latest.isCombinator = true at hcombinator
            rw [hcombinator] at hends
            cases hends

theorem operand {node : Node} (hnode : IsOperand node) (h : IsOpen earlier gap) :
    IsOpen (node :: Selector.addDescendant source gap earlier) none := by
  refine h.addDescendant.cons hnode.inline ?_ (fun _ => hnode.simple)
  intro _ hcombinator
  have hsimple := hnode.simple
  unfold isCombinator Node.type at hsimple
  rw [hcombinator] at hsimple
  cases hsimple

/-- Parts that end in a simple selector are a selector. -/
theorem isComplex (hends : endsSimple earlier = true) (h : IsOpen earlier gap) :
    IsComplex earlier.reverse where
  nonempty := by
    intro hnil
    rw [List.reverse_eq_nil_iff.mp hnil] at hends
    cases hends
  begins := by
    intro first hfirst
    rw [List.head?_reverse] at hfirst
    exact h.begins first hfirst
  ends := by
    intro last hlast
    rw [List.getLast?_reverse] at hlast
    rcases List.head?_eq_some_iff.mp hlast with ⟨rest, rfl⟩
    exact Bool.not_eq_true' _ ▸ hends
  apart := List.isChain_reverse.mpr h.apart

end IsOpen

/-! ## Whole selectors -/

/-- What the readers build has the shape of its construct. -/
def ReadingShaped : Reading -> Prop
  | .list _ node => node.IsInline ∧ node.type = .selectorList
  | .parts earlier gap _ nodes => IsOpen earlier gap ->
      IsComplex nodes ∧ forall node, node ∈ nodes -> node.IsInline
  | .argument _ _ node => node.IsInline

theorem combinator?_ne_descendant {token : Token} {name : String}
    (h : combinator? token = some name) : name ≠ " " := by
  unfold combinator? at h
  split at h <;> cases h <;> decide

theorem readingShaped {reading : Reading} (h : Reads source reading) :
    ReadingShaped reading := by
  induction h with
  | @list run selectors hparts hselectors ih =>
      have hall : forall selector, selector ∈ selectors ->
          (ofPart source selector.1 selector.2).IsInline := by
        intro selector hselector
        rcases ih selector hselector IsOpen.nil with ⟨hcomplex, hinline⟩
        exact isInline_of_children hcomplex NodeType.noConfusion hinline
      refine ⟨isInline_of_children ⟨?_, ?_⟩ NodeType.noConfusion ?_, rfl⟩
      · intro hnil
        rw [List.map_eq_nil_iff] at hnil
        rw [hnil] at hparts
        exact Run.splitTopLevel_ne_nil _ _ _ hparts
      · intro child hchild
        rcases List.mem_map.mp hchild with ⟨selector, _, rfl⟩
        rfl
      · intro child hchild
        rcases List.mem_map.mp hchild with ⟨selector, hselector, rfl⟩
        exact hall selector hselector
  | done hends =>
      intro hopen
      refine ⟨hopen.isComplex hends, ?_⟩
      intro node hnode
      exact hopen.inline node (List.mem_reverse.mp hnode)
  | @whitespace _ _ _ token _ hkind hrest ih =>
      intro hopen
      have hgap := endsSimple_of_if token true hopen.gap
      rw [Bool.and_true] at hgap
      exact ih (hopen.skip hgap)
  | comment hkind hrest ih =>
      intro hopen
      exact ih (hopen.skip (endsSimple_of_if _ _ hopen.gap))
  | bare hkind hpseudo harguments hrest ih =>
      intro hopen
      exact ih (hopen.operand (isOperand_pseudo _ _ none (by rintro _ ⟨⟩)))
  | @called _ _ _ _ _ _ pseudo child hkind hpseudo harguments hchild hrest ihchild ih =>
      intro hopen
      refine ih (hopen.operand (isOperand_pseudo pseudo _ (some child) ?_))
      rintro _ ⟨⟩
      exact ihchild
  | combinator hname hends hrest ih =>
      intro hopen
      refine ih (hopen.cons (isInline_leaf trivial NodeType.noConfusion rfl) ?_ ?_)
      · intro _ heq
        cases heq
        exact combinator?_ne_descendant hname rfl
      · intro hcombinator
        rw [hends] at hcombinator
        cases hcombinator
  | simple hsimple hrest ih =>
      intro hopen
      exact ih (hopen.operand (isOperand_simple? hsimple))
  | selectors htakes hlist ih => exact ih.left
  | position htakes htakes' hof hnth => exact isInline_nth? (by rintro _ ⟨⟩) hnth
  | positionOf htakes htakes' hof hlist hnth ih =>
      refine isInline_nth? ?_ hnth
      rintro _ ⟨⟩
      exact ih.left
  | word htakes htakes' htakes'' hword => exact isInline_word? hword
  | raw hraw => exact isInline_rawRun source _

theorem isInline_prelude (run : List Token) :
    (prelude source run).IsInline ∧ (prelude source run).type ∈ [.selectorList, .raw] := by
  unfold prelude
  cases hlist : list? source (Run.trim run) with
  | none => exact ⟨isInline_rawRun source _, List.mem_cons_of_mem _ List.mem_cons_self⟩
  | some node =>
      rcases readingShaped ((reads source).left _ node hlist) with ⟨hinline, htype⟩
      refine ⟨hinline, ?_⟩
      rw [Option.getD_some, htype]
      exact List.mem_cons_self

end Selector
end Stylesheet
