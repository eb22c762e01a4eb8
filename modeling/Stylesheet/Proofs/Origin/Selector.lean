import Stylesheet.Proofs.Origin.Components
import Stylesheet.Proofs.Selector.Derivation
import Stylesheet.Proofs.Token.Run
import Stylesheet.Proofs.Token.Spelling

/-!
# Selectors begin with their tokens

A selector begins with the first token of its run, and the selectors in the arguments of its
pseudo-classes come from tokens behind that one.  Main statement: a list of selectors is traced
to the run that it was read from.
-/

namespace Stylesheet
namespace Selector

variable {sourceName : String} {source : SourceName}

/-- A part of a selector is no tracked node and writes something first. -/
structure IsPart (node : Node) : Prop where
  untracked : node.isTracked = false
  leads : Piece.Leads (Node.constructPieces node.construct)

/-- A part is written with the first character of a token. -/
structure Begins (token : Token) (node : Node) : Prop where
  isPart : IsPart node
  head : node.render.toList.head? = token.text.toList.head?

theorem begins_of_writesFirst {token : Token} {node : Node} {written : String}
    (hfirst : node.construct.WritesFirst written) (huntracked : node.isTracked = false)
    (hne : written ≠ "") (hhead : written.toList.head? = token.text.toList.head?) :
    Begins token node := by
  refine ⟨⟨huntracked, hfirst.leads hne⟩, ?_⟩
  rw [Node.render_eq, hfirst.head? hne, hhead]

/-! ## Simple selectors -/

theorem begins_type {token : Token} {name : String} (hspelled : token.IsSpelled)
    (hkind : token.kind = .ident name ∨ token.kind = .delim '*' ∧ name = "*") :
    Begins token (Node.ofToken source token (.typeSelector name)) := by
  have htext : token.text = name := by
    rcases hkind with hkind | ⟨hkind, rfl⟩
    · exact hspelled.spelling name (by rw [hkind]; rfl)
    · exact hspelled.spelling "*" (by rw [hkind]; rfl)
  have hne : token.text ≠ "" := by
    refine hspelled.text_ne_empty ?_
    rcases hkind with hkind | ⟨hkind, _⟩ <;> rw [hkind] <;> intro h <;> cases h
  have hfirst : (Construct.typeSelector name).WritesFirst token.text :=
    ⟨[], by rw [Node.constructPieces, htext]⟩
  exact begins_of_writesFirst hfirst rfl hne rfl

theorem traced_attribute? {run content : List Token} {construct : Construct Node}
    (h : attribute? source content = some construct) :
    construct.WritesFirst "[" ∧ construct.type = .attributeSelector ∧
      Traced sourceName [] [Node.spanning source run construct] := by
  rcases isAttribute_of_attribute? h with ⟨tokens, -, hattribute⟩
  cases hattribute with
  | named => exact ⟨Construct.writesFirst_attribute _ _ _ _, rfl, Traced.leaf rfl rfl⟩
  | compared _ _ hvalue _ =>
      refine ⟨Construct.writesFirst_attribute _ _ _ _, rfl, Traced.untracked rfl rfl ?_⟩
      cases hvalue <;> exact Traced.leaf rfl rfl

/-- A simple selector begins with its token, holds no tracked node and cuts the run. -/
structure SimpleSpec (sourceName : String) (token : Token) (rest : List Token)
    (simple : Simple) : Prop where
  begins : Begins token simple.node
  traced : Traced sourceName [] [simple.node]
  sublist : simple.rest.Sublist rest

theorem simpleSpec {token : Token} {rest : List Token} {simple : Simple}
    (hspelled : token.IsSpelled) (h : simple? source token rest = some simple) :
    SimpleSpec sourceName token rest simple := by
  cases readsSimple_of_simple? h with
  | typeName hkind hbar =>
      exact ⟨begins_type hspelled (Or.inl hkind), Traced.leaf rfl rfl, List.Sublist.refl _⟩
  | universal hkind hbar =>
      exact ⟨begins_type hspelled (Or.inr ⟨hkind, rfl⟩), Traced.leaf rfl rfl,
        List.Sublist.refl _⟩
  | @dotted word name after hkind hword =>
      have htext : token.text = "." := hspelled.spelling "." (by rw [hkind]; rfl)
      have hfirst : (Construct.classSelector name).WritesFirst "." :=
        ⟨_, by rw [Node.constructPieces]⟩
      exact ⟨begins_of_writesFirst hfirst rfl (by decide) (htext ▸ rfl), Traced.leaf rfl rfl,
        List.sublist_cons_self _ _⟩
  | @hash name rest hkind =>
      have htext : token.text = "#" ++ name := hspelled.spelling _ (by rw [hkind]; rfl)
      have hfirst : (Construct.idSelector name).WritesFirst "#" :=
        ⟨_, by rw [Node.constructPieces]⟩
      refine ⟨begins_of_writesFirst hfirst rfl (by decide) ?_, Traced.leaf rfl rfl,
        List.Sublist.refl _⟩
      rw [htext, String.toList_append]
      rfl
  | @bracketed closer rest content after construct hkind hgroup hattribute =>
      rcases traced_attribute? hattribute with ⟨hfirst, htype, htraced⟩
      have htext : token.text = "[" := hspelled.spelling "[" (by rw [hkind]; rfl)
      refine ⟨begins_of_writesFirst hfirst ?_ (by decide) (htext ▸ rfl), htraced,
        Run.rest_sublist hgroup⟩
      show Recorder.isTracked construct.type = false
      rw [htype]
      rfl

/-! ## Pseudo-classes and pseudo-elements -/

theorem ReadsName.sublist {colons run : List Token} {isElement : Bool} {pseudo : Pseudo}
    (h : ReadsName colons isElement run pseudo) :
    ((pseudo.arguments.getD []) ++ pseudo.rest).Sublist run := by
  cases h with
  | word hkind => exact List.sublist_cons_self _ _
  | @called opener closer name rest content after hkind hgroup =>
      refine List.Sublist.cons _ ?_
      rw [← Run.splitGroup?_append hgroup]
      exact (List.sublist_cons_self closer after).append_left content

theorem pseudo?_sublist {colon : Token} {rest : List Token} {pseudo : Pseudo}
    (h : pseudo? colon rest = some pseudo) :
    ((pseudo.arguments.getD []) ++ pseudo.rest).Sublist rest := by
  cases readsPseudo_of_pseudo? h with
  | pseudoClass hname => exact hname.sublist
  | pseudoElement hsecond hname => exact hname.sublist.cons _

theorem begins_pseudo {colon : Token} {run : List Token} (pseudo : Pseudo)
    (children : Option (List Node)) (hspelled : colon.IsSpelled) (hkind : colon.kind = .colon) :
    Begins colon (Node.spanning source run (pseudo.construct children)) := by
  have htext : colon.text = ":" := hspelled.spelling ":" (by rw [hkind]; rfl)
  unfold Pseudo.construct
  split
  · have hfirst : (Construct.pseudoElement pseudo.name children).WritesFirst "::" :=
      ⟨_, by rw [Node.constructPieces]⟩
    exact begins_of_writesFirst hfirst rfl (by decide) (htext ▸ rfl)
  · have hfirst : (Construct.pseudoClass pseudo.name children).WritesFirst ":" :=
      ⟨_, by rw [Node.constructPieces]⟩
    exact begins_of_writesFirst hfirst rfl (by decide) (htext ▸ rfl)

theorem traced_pseudo {run arguments : List Token} (pseudo : Pseudo)
    {children : Option (List Node)} (h : Traced sourceName arguments (children.getD [])) :
    Traced sourceName arguments [Node.spanning source run (pseudo.construct children)] := by
  unfold Pseudo.construct
  split
  · exact Traced.untracked rfl rfl h
  · exact Traced.untracked rfl rfl h

/-! ## Combinators -/

theorem begins_combinator {token : Token} {name : String} (hspelled : token.IsSpelled)
    (h : combinator? token = some name) :
    Begins token (Node.ofToken source token (.combinator name)) := by
  have htext : token.text = name ∧ name ≠ "" := by
    unfold combinator? at h
    split at h <;> cases h
    all_goals
      rename_i hkind
      exact ⟨hspelled.spelling _ (by rw [hkind]; rfl), by decide⟩
  rcases htext with ⟨rfl, hne⟩
  have hfirst : (Construct.combinator token.text).WritesFirst token.text :=
    ⟨[], by rw [Node.constructPieces]⟩
  exact begins_of_writesFirst hfirst rfl hne rfl

theorem addDescendant_reverse (gap : Option Token) (earlier : List Node) :
    (addDescendant source gap earlier).reverse =
      earlier.reverse ++ addDescendant source gap [] := by
  cases gap with
  | none => exact (List.append_nil _).symm
  | some token => exact List.reverse_cons

theorem isPart_of_mem_addDescendant {gap : Option Token} {node : Node}
    (h : node ∈ addDescendant source gap []) : IsPart node := by
  cases gap with
  | none => cases h
  | some token =>
      rcases List.mem_singleton.mp h with rfl
      refine ⟨rfl, ?_⟩
      show Piece.Leads (Node.constructPieces (.combinator " "))
      rw [Node.constructPieces]
      exact Or.inl (by decide)

theorem traced_addDescendant (gap : Option Token) :
    Traced sourceName [] (addDescendant source gap []) := by
  cases gap with
  | none => exact Traced.nil sourceName []
  | some token => exact Traced.leaf rfl rfl

/-! ## Whole selectors -/

/-- The parts behind earlier ones: what they write, where they come from, how they begin. -/
def PartsTraced (sourceName : String) (earlier : List Node) (gap : Option Token)
    (run : List Token) (nodes : List Node) : Prop :=
  exists later, nodes = earlier.reverse ++ later ∧ (forall node, node ∈ later -> IsPart node) ∧
    Traced sourceName run.tail later ∧
    (gap = none -> forall token rest, run = token :: rest -> token.isTrivia = false ->
      exists node behind, later = node :: behind ∧ Begins token node)

/-- What a reading is traced to, when its tokens are spelled. -/
def ReadingTraced (sourceName : String) : Reading -> Prop
  | .list run node => (forall token, token ∈ run -> token.IsSpelled) ->
      Traced sourceName run [node]
  | .parts earlier gap run nodes => (forall token, token ∈ run -> token.IsSpelled) ->
      PartsTraced sourceName earlier gap run nodes
  | .argument _ run node => (forall token, token ∈ run -> token.IsSpelled) ->
      Traced sourceName run [node]

theorem partsTraced_of_trivia {earlier nodes : List Node} {gap gap' : Option Token}
    {token : Token} {rest : List Token} (htrivia : token.isTrivia = true)
    (h : PartsTraced sourceName earlier gap' rest nodes) :
    PartsTraced sourceName earlier gap (token :: rest) nodes := by
  rcases h with ⟨later, hnodes, hparts, htraced, _⟩
  refine ⟨later, hnodes, hparts, htraced.mono (List.tail_sublist rest), ?_⟩
  rintro _ _ _ ⟨rfl, rfl⟩ hnot
  rw [htrivia] at hnot
  cases hnot

theorem partsTraced_of_begins {earlier nodes : List Node} {gap : Option Token} {token : Token}
    {node : Node} {rest arguments behind : List Token} (hbegins : Begins token node)
    (htraced : Traced sourceName arguments [node]) (hsublist : (arguments ++ behind).Sublist rest)
    (h : PartsTraced sourceName (node :: addDescendant source gap earlier) none behind nodes) :
    PartsTraced sourceName earlier gap (token :: rest) nodes := by
  rcases h with ⟨later, hnodes, hparts, hlater, _⟩
  refine ⟨addDescendant source gap [] ++ node :: later, ?_, ?_, ?_, ?_⟩
  · rw [hnodes, List.reverse_cons, addDescendant_reverse]
    simp only [List.append_assoc, List.singleton_append]
  · intro part hpart
    rcases List.mem_append.mp hpart with hpart | hpart
    · exact isPart_of_mem_addDescendant hpart
    · rcases List.mem_cons.mp hpart with rfl | hpart
      · exact hbegins.isPart
      · exact hparts part hpart
  · have hbehind := hlater.mono (List.tail_sublist behind)
    exact ((traced_addDescendant gap).append (htraced.cons hbehind)).mono hsublist
  · rintro rfl _ _ ⟨rfl, rfl⟩ _
    exact ⟨node, later, rfl, hbegins⟩

/-- A gap in front of a combinator that is written out stands for nothing. -/
theorem partsTraced_of_combinator {earlier nodes : List Node} {gap : Option Token}
    {token : Token} {node : Node} {rest : List Token} (hbegins : Begins token node)
    (htraced : Traced sourceName [] [node])
    (h : PartsTraced sourceName (node :: earlier) none rest nodes) :
    PartsTraced sourceName earlier gap (token :: rest) nodes := by
  have hsame : addDescendant (some sourceName) none earlier = earlier := rfl
  rw [← hsame] at h
  have hnone : PartsTraced sourceName earlier none (token :: rest) nodes :=
    partsTraced_of_begins hbegins htraced (List.Sublist.refl _) h
  rcases hnone with ⟨later, hnodes, hparts, hlater, hfirst⟩
  exact ⟨later, hnodes, hparts, hlater, fun _ => hfirst rfl⟩

/-- A selector over a run without trivia in front begins with the first token. -/
theorem traced_selector {run : List Token} {nodes : List Node}
    (htrim : forall token rest, run = token :: rest -> token.isTrivia = false)
    (hne : run ≠ []) (h : PartsTraced sourceName [] none run nodes) :
    Traced sourceName run [Node.spanning (some sourceName) run (.selector nodes)] := by
  rcases List.exists_cons_of_ne_nil hne with ⟨token, rest, rfl⟩
  rcases h with ⟨later, hnodes, _, htraced, hfirst⟩
  rcases hfirst rfl token rest rfl (htrim token rest rfl) with ⟨node, behind, rfl, hbegins⟩
  change nodes = node :: behind at hnodes
  subst hnodes
  have hnode : Piece.Leads node.pieces := by
    rw [Node.pieces_eq, List.cons_append]
    exact ⟨hbegins.isPart.untracked, hbegins.isPart.leads.append _⟩
  refine Traced.tracked ?_ rfl ?_ htraced
  · refine Node.mark_spanning ?_
    have hne : node.render.toList ≠ [] := by
      rw [← Node.chars_pieces]
      exact hnode.chars_ne_nil
    rw [← hbegins.head, Node.renderConstruct, Node.renderAll, String.toList_append,
      List.head?_append_of_ne_nil _ hne]
  · show Piece.Leads (Node.constructPieces (.selector (node :: behind)))
    rw [Node.constructPieces, Node.allPieces]
    exact hnode.append _

theorem splitOf?_sublist {run before after : List Token}
    (h : splitOf? run = some (before, after)) : after.Sublist run := by
  fun_induction splitOf? run generalizing before after with
  | case1 space word rest =>
      cases h
      exact (List.sublist_cons_self _ _).cons _
  | case2 space word rest _ ih =>
      rcases Option.map_eq_some_iff.mp h with ⟨⟨front, back⟩, hinner, heq⟩
      cases heq
      exact (ih hinner).cons _
  | case3 => cases h

theorem nth?_eq_some {run formula : List Token} {selectors : Option Node} {node : Node}
    (h : nth? source run formula selectors = some node) :
    exists construct : Construct Node,
      node = Node.spanning source run (.nth (Node.spanning source formula construct) selectors) ∧
        Traced sourceName [] [Node.spanning source formula construct] := by
  rcases Option.map_eq_some_iff.mp h with ⟨construct, hconstruct, rfl⟩
  refine ⟨construct, rfl, ?_⟩
  simp only [position?] at hconstruct
  split at hconstruct
  · cases hconstruct
    exact Traced.leaf rfl rfl
  · rcases Option.map_eq_some_iff.mp hconstruct with ⟨⟨a, b⟩, _, rfl⟩
    exact Traced.leaf rfl rfl

theorem traced_ofParts {selectors : List (List Token × List Node)}
    (hreads : forall selector, selector ∈ selectors ->
      Reads source (.parts [] none (Run.trim selector.1) selector.2))
    (htraced : forall selector, selector ∈ selectors ->
      ReadingTraced sourceName (.parts [] none (Run.trim selector.1) selector.2))
    (hspelled : forall token, token ∈ (selectors.map Prod.fst).flatten -> token.IsSpelled) :
    Traced sourceName (selectors.map Prod.fst).flatten
      (selectors.map fun selector => ofPart (some sourceName) selector.1 selector.2) := by
  induction selectors with
  | nil => exact Traced.nil sourceName []
  | cons selector rest ih =>
      have htrim := Run.trim_sublist selector.1
      have hselector : Traced sourceName (Run.trim selector.1)
          [ofPart (some sourceName) selector.1 selector.2] := by
        refine traced_selector ?_ ?_ (htraced selector List.mem_cons_self ?_)
        · intro token behind heq
          exact Run.not_trivia_of_trim_eq_cons heq
        · intro hnil
          have hdone := hreads selector List.mem_cons_self
          rw [hnil] at hdone
          generalize selector.2 = nodes at hdone
          cases hdone with
          | done hends => cases hends
        · intro token htoken
          exact hspelled token (List.mem_append_left _ (htrim.subset htoken))
      refine (hselector.mono htrim).cons (ih ?_ ?_ ?_)
      · exact fun other hother => hreads other (List.mem_cons_of_mem selector hother)
      · exact fun other hother => htraced other (List.mem_cons_of_mem selector hother)
      · exact fun token htoken => hspelled token (List.mem_append_right _ htoken)

theorem readingTraced {reading : Reading} (h : Reads (some sourceName) reading) :
    ReadingTraced sourceName reading := by
  induction h with
  | @list run selectors hparts hselectors ih =>
      intro hspelled
      have hspelled' : forall token, token ∈ Run.trim run -> token.IsSpelled := by
        intro token htoken
        exact hspelled token ((Run.trim_sublist run).subset htoken)
      have hflatten : (selectors.map Prod.fst).flatten.Sublist (Run.trim run) := by
        rw [← hparts]
        exact Run.flatten_splitTopLevel_sublist _ 0 _
      refine Traced.untracked rfl rfl (Traced.mono ?_ (hflatten.trans (Run.trim_sublist run)))
      refine traced_ofParts hselectors ih ?_
      intro token htoken
      exact hspelled' token (hflatten.subset htoken)
  | done hends =>
      intro _
      refine ⟨[], (List.append_nil _).symm, ?_, Traced.nil _ _, ?_⟩
      · intro node hnode
        cases hnode
      · intro _ token rest heq
        cases heq
  | whitespace hkind hrest ih =>
      intro hspelled
      have htrivia := congrArg TokenKind.isTrivia hkind
      exact partsTraced_of_trivia htrivia (ih fun token htoken =>
        hspelled token (List.mem_cons_of_mem _ htoken))
  | comment hkind hrest ih =>
      intro hspelled
      have htrivia := congrArg TokenKind.isTrivia hkind
      exact partsTraced_of_trivia htrivia (ih fun token htoken =>
        hspelled token (List.mem_cons_of_mem _ htoken))
  | bare hkind hpseudo harguments hrest ih =>
      intro hspelled
      have hsublist := pseudo?_sublist hpseudo
      rw [harguments, Option.getD_none, List.nil_append] at hsublist
      refine partsTraced_of_begins (begins_pseudo _ none (hspelled _ List.mem_cons_self) hkind)
        (traced_pseudo _ (Traced.nil sourceName [])) hsublist (ih ?_)
      intro token htoken
      exact hspelled token (List.mem_cons_of_mem _ (hsublist.subset htoken))
  | @called earlier nodes gap token rest arguments pseudo child hkind hpseudo harguments hchild
      hrest ihchild ih =>
      intro hspelled
      have hsublist : (Run.trim arguments ++ pseudo.rest).Sublist rest := by
        have h := pseudo?_sublist hpseudo
        rw [harguments] at h
        exact ((Run.trim_sublist arguments).append_right _).trans h
      have hbehind : forall other, other ∈ Run.trim arguments ++ pseudo.rest ->
          other.IsSpelled := by
        intro other hother
        exact hspelled other (List.mem_cons_of_mem _ (hsublist.subset hother))
      refine partsTraced_of_begins (begins_pseudo _ _ (hspelled _ List.mem_cons_self) hkind)
        (traced_pseudo _ (ihchild ?_)) hsublist (ih ?_)
      · intro other hother
        exact hbehind other (List.mem_append_left _ hother)
      · intro other hother
        exact hbehind other (List.mem_append_right _ hother)
  | combinator hname hends hrest ih =>
      intro hspelled
      refine partsTraced_of_combinator (begins_combinator (hspelled _ List.mem_cons_self) hname)
        (Traced.leaf rfl rfl) (ih ?_)
      intro token htoken
      exact hspelled token (List.mem_cons_of_mem _ htoken)
  | simple hsimple hrest ih =>
      intro hspelled
      rcases simpleSpec (hspelled _ List.mem_cons_self) hsimple with
        ⟨hbegins, htraced, hsublist⟩
      refine partsTraced_of_begins hbegins htraced hsublist (ih ?_)
      intro token htoken
      exact hspelled token (List.mem_cons_of_mem _ (hsublist.subset htoken))
  | selectors htakes hlist ih => exact ih
  | position htakes htakes' hof hnth =>
      intro _
      rcases nth?_eq_some hnth with ⟨construct, rfl, htraced⟩
      exact (Traced.untracked rfl rfl htraced).mono (List.nil_sublist _)
  | positionOf htakes htakes' hof hlist hnth ih =>
      intro hspelled
      rcases nth?_eq_some hnth with ⟨construct, rfl, htraced⟩
      have hafter := splitOf?_sublist hof
      refine Traced.untracked rfl rfl (htraced.cons ((ih ?_).mono hafter))
      intro token htoken
      exact hspelled token (hafter.subset htoken)
  | word htakes htakes' htakes'' hword =>
      intro _
      rcases word?_eq_some hword with ⟨word, name, -, -, rfl⟩
      exact (Traced.leaf rfl rfl).mono (List.nil_sublist _)
  | raw hraw =>
      intro _
      exact (Traced.raw _).mono (List.nil_sublist _)

theorem traced_prelude {run : List Token}
    (hspelled : forall token, token ∈ run -> token.IsSpelled) :
    Traced sourceName run [prelude (some sourceName) run] := by
  have htrim := Run.trim_sublist run
  unfold prelude
  cases hlist : list? (some sourceName) (Run.trim run) with
  | none => exact (Traced.raw _).mono (List.nil_sublist _)
  | some node =>
      refine Traced.mono (readingTraced ((reads _).left _ node hlist) ?_) htrim
      intro token htoken
      exact hspelled token (htrim.subset htoken)

end Selector
end Stylesheet
