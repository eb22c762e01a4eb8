import Stylesheet.Proofs.Range.Components
import Stylesheet.Proofs.Selector.Derivation

/-!
# Where selectors are placed

The parts of a selector are placed one behind another in its run, and the argument of a
pseudo-class in the run between its parentheses.  Main statement: the prelude of a rule is placed
in its run.
-/

namespace Stylesheet
namespace Selector

open Run

variable {source : SourceName}

/-! ## Simple selectors -/

theorem over_compared {token : Token} {value : Construct Node} (hspelled : token.IsSpelled)
    (h : IsCompared token value) :
    (Node.ofToken source token value).Over source .value [token] := by
  cases h with
  | word hword =>
      exact Node.Over.ofSpelling hspelled (by rw [hword]; rfl) rfl (by rw [Node.renderConstruct])
  | quoted hquoted =>
      exact Node.Over.ofSpelling hspelled (by rw [hquoted]; rfl) rfl
        (by rw [Node.renderConstruct])

theorem over_attribute? {opener closer : Token} {content : List Token}
    {construct : Construct Node} (hspelled : Run.IsSpelled content)
    (h : attribute? source content = some construct) :
    (Node.spanning source (opener :: content ++ [closer]) construct).Over source .value
      (opener :: content ++ [closer]) := by
  have hne : opener :: content ++ [closer] ≠ [] := List.cons_ne_nil _ _
  rcases isAttribute_of_attribute? h with ⟨tokens, hcontent, hattribute⟩
  cases hattribute with
  | named => exact Node.Over.leaf hne (Construct.fits_of_isFree rfl) rfl
  | @compared word token marks flagged name matcher value flags hword hmarks hvalue hflags =>
      have hmem : token ∈ content := by
        apply List.mem_of_mem_filter (p := fun token => !token.isTrivia)
        change token ∈ significant content
        rw [hcontent]
        exact List.mem_cons_of_mem _ (List.mem_append_right _ List.mem_cons_self)
      have hplaced := (@over_compared source _ _ (hspelled token hmem) hvalue).placed
      rcases List.append_of_mem hmem with ⟨front, back, rfl⟩
      apply Node.Over.free hne rfl
      show Placed source .attributeSelector _ [_]
      have hwithin :=
        (hplaced.under .attributeSelector).widen (opener :: front) (back ++ [closer])
      simpa only [List.append_assoc, List.cons_append, List.nil_append] using hwithin

/-- A simple selector covers the tokens that it takes. -/
theorem over_simple? {token : Token} {rest : List Token} {simple : Simple}
    (hspelled : Run.IsSpelled (token :: rest)) (h : simple? source token rest = some simple) :
    exists inner, token :: rest = inner ++ simple.rest ∧
      simple.node.Over source .value inner := by
  have htoken : token.IsSpelled := hspelled token List.mem_cons_self
  cases readsSimple_of_simple? h with
  | typeName hkind hbar =>
      exact ⟨[token], rfl, Node.Over.ofSpelling htoken (by rw [hkind]; rfl) rfl
        (by rw [Node.renderConstruct])⟩
  | universal hkind hbar =>
      exact ⟨[token], rfl, Node.Over.ofSpelling htoken (by rw [hkind]; rfl) rfl
        (by rw [Node.renderConstruct]; rfl)⟩
  | @dotted word name after hkind hword =>
      refine ⟨[token, word], rfl, ?_⟩
      apply Node.Over.leaf (List.cons_ne_nil _ _) _ rfl
      apply Construct.fits_of_isLeaf rfl
      have hspelled' : word.IsSpelled := hspelled word (by simp)
      rw [Node.renderConstruct, text_cons, text_singleton hspelled' (by rw [hword]; rfl),
        htoken.spelling "." (by rw [hkind]; rfl)]
  | hash hkind =>
      exact ⟨[token], rfl, Node.Over.ofSpelling htoken (by rw [hkind]; rfl) rfl
        (by rw [Node.renderConstruct])⟩
  | @bracketed closer _ content after construct hkind hgroup hattribute =>
      refine ⟨token :: content ++ [closer], ?_, over_attribute? ?_ hattribute⟩
      · rw [← splitGroup?_append hgroup, List.append_assoc]
        rfl
      · exact hspelled.sublist ((content_sublist hgroup).trans (List.sublist_cons_self _ _))

/-! ## Pseudo-classes and pseudo-elements -/

theorem ReadsName.append {colons run : List Token} {isElement : Bool} {pseudo : Pseudo}
    (h : ReadsName colons isElement run pseudo) :
    colons ++ run = pseudo.run ++ pseudo.rest ∧
      forall arguments, arguments ∈ pseudo.arguments -> arguments <:+: pseudo.run := by
  cases h with
  | word hkind =>
      refine ⟨List.append_cons _ _ _, ?_⟩
      rintro _ ⟨⟩
  | @called opener closer name rest content after hkind hgroup =>
      constructor
      · rw [← splitGroup?_append hgroup]
        simp only [List.append_assoc, List.cons_append, List.nil_append]
      · rintro _ ⟨⟩
        exact ⟨colons ++ [opener], [closer], by simp⟩

theorem pseudo?_append {colon : Token} {rest : List Token} {pseudo : Pseudo}
    (h : pseudo? colon rest = some pseudo) :
    colon :: rest = pseudo.run ++ pseudo.rest ∧
      forall arguments, arguments ∈ pseudo.arguments -> arguments <:+: pseudo.run := by
  cases readsPseudo_of_pseudo? h with
  | pseudoClass hname => exact hname.append
  | pseudoElement hsecond hname => exact hname.append

theorem over_pseudo {pseudo : Pseudo} {colon : Token} {rest : List Token}
    (hpseudo : pseudo? colon rest = some pseudo) {children : Option (List Node)}
    (h : Placed source .value pseudo.run (children.getD [])) :
    (Node.spanning source pseudo.run (pseudo.construct children)).Over source .value
      pseudo.run := by
  have hne : pseudo.run ≠ [] := by
    intro hnil
    have hlength := congrArg List.length (pseudo?_append hpseudo).left
    have hrest := (pseudo?_lengths hpseudo).left
    rw [hnil, List.nil_append, List.length_cons] at hlength
    omega
  unfold Pseudo.construct
  split
  · exact Node.Over.free hne rfl (h.under .pseudoElement)
  · exact Node.Over.free hne rfl (h.under .pseudoClass)

/-! ## Positions -/

theorem splitOf?_append {run before after : List Token}
    (h : splitOf? run = some (before, after)) :
    exists word, run = before ++ word :: after := by
  fun_induction splitOf? run generalizing before after with
  | case1 space word rest =>
      cases h
      exact ⟨word, rfl⟩
  | case2 space word rest _ ih =>
      rcases Option.map_eq_some_iff.mp h with ⟨⟨front, back⟩, hinner, heq⟩
      cases heq
      rcases ih hinner with ⟨mark, hmark⟩
      exact ⟨mark, congrArg (space :: ·) hmark⟩
  | case3 => cases h

theorem ne_nil_of_position? {run : List Token} {construct : Construct Node}
    (h : position? run = some construct) : run ≠ [] := by
  rintro rfl
  have hnone : position? [] = none := by decide +kernel
  rw [hnone] at h
  cases h

theorem over_position? {run : List Token} {construct : Construct Node}
    (h : position? run = some construct) :
    (Node.spanning source run construct).Over source .nth run := by
  have hne := ne_nil_of_position? h
  simp only [position?] at h
  split at h
  · cases h
    apply Node.Over.leaf hne _ rfl
    intro hnth
    exact absurd rfl hnth
  · rcases Option.map_eq_some_iff.mp h with ⟨⟨a, b⟩, _, rfl⟩
    exact Node.Over.leaf hne (Construct.fits_of_isFree rfl) rfl

/-- A position covers a run that its formula and its selectors are placed in. -/
theorem over_nth? {run formula behind : List Token} {selectors : Option Node} {node : Node}
    (hrun : formula ++ behind <:+: run) (htype : forall list, list ∈ selectors ->
      list.type = .selectorList) (hselectors : Placed source .value behind selectors.toList)
    (h : nth? source run formula selectors = some node) : node.Over source .value run := by
  rcases Option.map_eq_some_iff.mp h with ⟨construct, hconstruct, rfl⟩
  have hne : run ≠ [] := by
    rintro rfl
    have hnil := List.infix_nil.mp hrun
    exact ne_nil_of_position? hconstruct (List.append_eq_nil_iff.mp hnil).left
  have hfits : (Construct.nth (Node.spanning source formula construct) selectors).Fits .value run :=
    htype
  exact Node.Over.spanning hne hfits
    (((over_position? hconstruct).cons (hselectors.under .nth)).mono hrun)

theorem over_word? {run : List Token} {node : Node} (hspelled : Run.IsSpelled run)
    (h : word? source run = some node) : node.Over source .value run := by
  rcases word?_eq_some h with ⟨word, name, rfl, hkind, rfl⟩
  exact Node.Over.ofSpelling (hspelled word List.mem_cons_self) (by rw [hkind]; rfl) rfl
    (by rw [Node.renderConstruct])

/-! ## Complex selectors -/

theorem spelling?_of_combinator? {token : Token} {name : String}
    (h : combinator? token = some name) : token.kind.spelling? = some name := by
  rcases combinator?_eq_some_iff.mp h with ⟨c, _, hkind, rfl⟩
  rw [hkind]
  rfl

theorem sublist_addDescendant (gap : Option Token) (earlier : List Node) :
    earlier.Sublist (addDescendant source gap earlier) := by
  cases gap with
  | none => exact List.Sublist.refl _
  | some token => exact List.sublist_cons_self _ _

/-- What is read is placed in the run that it was read from. -/
def Reading.IsPlaced (source : SourceName) : Reading -> Prop
  | .list run node =>
      Run.IsSpelled run -> node.Over source .value (trim run) ∧ node.type = .selectorList
  | .parts earlier gap run nodes =>
      Run.IsSpelled run -> forall before,
        Placed source .value before (addDescendant source gap earlier).reverse ->
          Placed source .value (before ++ run) nodes
  | .argument _ run node => Run.IsSpelled run -> Placed source .value run [node]

section Parts

variable {before inner : List Token} {earlier : List Node} {gap : Option Token} {node : Node}
  {token : Token}

theorem placed_operand
    (h : Placed source .value before (addDescendant source gap earlier).reverse)
    (hnode : node.Over source .value inner) :
    Placed source .value (before ++ inner)
      (addDescendant source none (node :: addDescendant source gap earlier)).reverse := by
  rw [addDescendant, List.reverse_cons]
  exact h.append hnode.placed

/-- A token may take the place of the one that stands for a descendant combinator. -/
theorem placed_gap (h : Placed source .value before (addDescendant source gap earlier).reverse)
    (token : Token) (stands : Bool) :
    Placed source .value (before ++ [token])
      (addDescendant source (if stands then some token else gap) earlier).reverse := by
  cases stands with
  | false =>
      have hbehind := h.append (Placed.nil _ [token])
      rw [List.append_nil] at hbehind
      exact hbehind
  | true =>
      have hearlier := h.sublist (sublist_addDescendant gap earlier).reverse
      have hdescendant : (Construct.combinator " " : Construct Node).Fits .value [token] :=
        fun hne => absurd rfl hne
      simp only [if_true, addDescendant, List.reverse_cons]
      exact hearlier.append (Node.Over.ofToken hdescendant rfl).placed

end Parts

theorem Reads.ne_nil {run : List Token} {nodes : List Node}
    (h : Reads source (.parts [] none run nodes)) : run ≠ [] := by
  rintro rfl
  cases h with
  | done hends => cases hends

theorem trim_ne_nil_of_listParts {run : List Token} {selectors : List (List Token × List Node)}
    (hparts : listParts run = selectors.map Prod.fst)
    (hselectors : forall selector, selector ∈ selectors ->
      Reads source (.parts [] none (trim selector.1) selector.2)) : trim run ≠ [] := by
  intro hnil
  rw [listParts, hnil, splitTopLevel] at hparts
  cases selectors with
  | nil => cases hparts
  | cons selector rest =>
      rw [List.map_cons, List.cons.injEq] at hparts
      have hreads := hselectors selector List.mem_cons_self
      rw [← hparts.left] at hreads
      exact hreads.ne_nil rfl

theorem placed_list {run : List Token} {selectors : List (List Token × List Node)}
    (hparts : listParts run = selectors.map Prod.fst)
    (hover : forall selector, selector ∈ selectors ->
      (ofPart source selector.1 selector.2).Over source .value (trim selector.1)) :
    Placed source .value (trim run)
      (selectors.map fun selector => ofPart source selector.1 selector.2) := by
  have hall : List.Forall₂ (fun part node => Placed source .value part [node])
      (selectors.map Prod.fst)
      (selectors.map fun selector => ofPart source selector.1 selector.2) := by
    rw [List.forall₂_map_left_iff, List.forall₂_map_right_iff, List.forall₂_same]
    intro selector hselector
    exact (hover selector hselector).placed.mono (isInfix_trim selector.1)
  exact Placed.of_splitTopLevel hall hparts

theorem reading_isPlaced {reading : Reading} (h : Reads source reading) :
    reading.IsPlaced source := by
  induction h with
  | @list run selectors hparts hselectors ih =>
      intro hspelled
      have hpart : forall part, part ∈ listParts run -> Run.IsSpelled part := by
        intro part hpart
        exact hspelled.sublist (((List.sublist_flatten_of_mem hpart).trans
          (flatten_splitTopLevel_sublist _ 0 _)).trans (trim_sublist run))
      refine ⟨?_, rfl⟩
      apply Node.Over.free (trim_ne_nil_of_listParts hparts hselectors) rfl
      apply Placed.under
      apply placed_list hparts
      intro selector hselector
      have hmem : selector.1 ∈ listParts run := by
        rw [hparts]
        exact List.mem_map_of_mem hselector
      have hplaced := ih selector hselector
        ((hpart selector.1 hmem).sublist (trim_sublist selector.1)) [] (Placed.nil _ [])
      exact Node.Over.free (hselectors selector hselector).ne_nil rfl
        (hplaced.under .selector)
  | @done earlier gap hends =>
      intro _ before hbefore
      rw [List.append_nil]
      exact hbefore.sublist (sublist_addDescendant gap earlier).reverse
  | whitespace hkind hrest ih =>
      intro hspelled before hbefore
      rw [List.append_cons]
      exact ih (hspelled.sublist (List.sublist_cons_self _ _)) _ (placed_gap hbefore _ _)
  | comment hkind hrest ih =>
      intro hspelled before hbefore
      rw [List.append_cons]
      exact ih (hspelled.sublist (List.sublist_cons_self _ _)) _ (placed_gap hbefore _ _)
  | bare hkind hpseudo harguments hrest ih =>
      intro hspelled before hbefore
      have happend := (pseudo?_append hpseudo).left
      rw [happend] at hspelled ⊢
      rw [← List.append_assoc]
      apply ih (hspelled.sublist (List.sublist_append_right _ _))
      exact placed_operand hbefore (over_pseudo hpseudo (Placed.nil _ _))
  | @called earlier nodes gap token rest arguments pseudo child hkind hpseudo harguments hchild
      hrest ihchild ih =>
      intro hspelled before hbefore
      rcases pseudo?_append hpseudo with ⟨happend, harguments'⟩
      have hwithin : trim arguments <:+: pseudo.run :=
        (isInfix_trim arguments).trans (harguments' arguments harguments)
      rw [happend] at hspelled ⊢
      have hrun : Run.IsSpelled pseudo.run := hspelled.sublist (List.sublist_append_left _ _)
      rw [← List.append_assoc]
      apply ih (hspelled.sublist (List.sublist_append_right _ _))
      apply placed_operand hbefore (over_pseudo hpseudo _)
      exact (ihchild (hrun.sublist hwithin.sublist)).mono hwithin
  | @combinator earlier nodes gap token name rest hname hends hrest ih =>
      intro hspelled before hbefore
      rw [List.append_cons]
      apply ih (hspelled.sublist (List.sublist_cons_self _ _))
      have hearlier := hbefore.sublist (sublist_addDescendant gap earlier).reverse
      rw [addDescendant, List.reverse_cons]
      exact hearlier.append (Node.Over.ofSpelling (hspelled token List.mem_cons_self)
        (spelling?_of_combinator? hname) rfl (by rw [Node.renderConstruct])).placed
  | simple hsimple hrest ih =>
      intro hspelled before hbefore
      rcases over_simple? hspelled hsimple with ⟨inner, happend, hover⟩
      rw [happend] at hspelled ⊢
      rw [← List.append_assoc]
      apply ih (hspelled.sublist (List.sublist_append_right _ _))
      exact placed_operand hbefore hover
  | @selectors name run node htakes hlist ih =>
      intro hspelled
      exact (ih hspelled).left.placed.mono (isInfix_trim run)
  | @position name run node htakes htakes' hof hnth =>
      intro _
      have hrun : run ++ [] <:+: run := ⟨[], [], by simp⟩
      exact (over_nth? hrun (by rintro _ ⟨⟩) (Placed.nil _ []) hnth).placed
  | @positionOf name run before after selectors node htakes htakes' hof hlist hnth ih =>
      intro hspelled
      rcases splitOf?_append hof with ⟨word, rfl⟩
      have hafter : Run.IsSpelled after :=
        hspelled.sublist ((List.sublist_cons_self _ _).trans (List.sublist_append_right _ _))
      rcases ih hafter with ⟨hover, htype⟩
      rcases trim_eq_append before with ⟨front, back, hbefore, _, _⟩
      have hrun : trim before ++ (back ++ word :: after) <:+: before ++ word :: after := by
        refine ⟨front, [], ?_⟩
        conv_rhs => rw [hbefore]
        simp only [List.append_assoc, List.append_nil]
      have hplaced : Placed source .value (back ++ word :: after) [selectors] :=
        ((hover.placed.mono (isInfix_trim after)).skip [word]).skip back
      refine (over_nth? hrun ?_ hplaced hnth).placed
      rintro _ ⟨⟩
      exact htype
  | word htakes htakes' htakes'' hword =>
      intro hspelled
      exact (over_word? hspelled hword).placed
  | raw hraw =>
      intro _
      exact (Node.Over.raw source .value _).placed

/-- The prelude of a rule covers its run without the trivia at its ends. -/
theorem over_prelude {run : List Token} (hspelled : Run.IsSpelled run) :
    (prelude source run).Over source .value (trim run) := by
  have htrim : Run.IsSpelled (trim run) := hspelled.sublist (trim_sublist run)
  unfold prelude
  cases hlist : list? source (trim run) with
  | none => exact Node.Over.raw source .value (trim run)
  | some node =>
      have hover := (reading_isPlaced ((reads source).left _ node hlist) htrim).left
      rw [trim_trim] at hover
      exact hover

end Selector
end Stylesheet
