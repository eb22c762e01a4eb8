import Stylesheet.Proofs.Reshaped.Components
import Stylesheet.Proofs.Selector.Derivation

/-!
# Selectors of reshaped tokens

A closer ends the brackets of an attribute selector and the arguments of a pseudo-class, whatever
its shape, and begins no selector.
-/

namespace Stylesheet
namespace Selector

variable {reshape : Token -> Token} {source source' : SourceName} {follow : Node -> Node}

/-! ## Closers -/

section Closer

variable {token : Token} (h : token.isCloser = true)
include h

theorem matcher?_closer (rest : List Token) : matcher? (token :: rest) = none := by
  rcases token with ⟨kind, text, start⟩
  cases kind <;> first | rfl | cases h

theorem matcher?_delim_closer {c : Char} (hc : c ≠ '=') (text : String) (start : Position)
    (rest : List Token) : matcher? (⟨.delim c, text, start⟩ :: token :: rest) = none := by
  rcases token with ⟨kind, text', start'⟩
  cases kind <;> first | cases h; done | simp [matcher?, hc]

theorem attributeValue?_closer (source : SourceName) : attributeValue? source token = none := by
  rcases token with ⟨kind, text, start⟩
  cases kind <;> first | rfl | cases h

theorem attributeFlags?_closer (rest : List Token) : attributeFlags? (token :: rest) = none := by
  rcases token with ⟨kind, text, start⟩
  cases rest <;> cases kind <;> first | rfl | cases h

theorem attribute?_closer {content rest : List Token}
    (hcontent : Run.significant content = token :: rest) (source : SourceName) :
    attribute? source content = none := by
  rcases token with ⟨kind, text, start⟩
  rw [attribute?, hcontent]
  cases kind <;> first | rfl | cases h

theorem startsBar_closer (rest : List Token) : startsBar (token :: rest) = false := by
  rcases token with ⟨kind, text, start⟩
  cases kind <;> first | rfl | cases h

theorem startsType_closer (rest : List Token) : startsType (token :: rest) = false := by
  rcases token with ⟨kind, text, start⟩
  cases kind <;> first | rfl | cases h

theorem simple?_closer (source : SourceName) (rest : List Token) :
    simple? source token rest = none := by
  rcases token with ⟨kind, text, start⟩
  cases kind <;> first | rfl | cases h

theorem simple?_dot_closer {dot : Token} (hdot : dot.kind = .delim '.') (source : SourceName)
    (rest : List Token) : simple? source dot (token :: rest) = none := by
  rcases token with ⟨kind, text, start⟩
  rw [simple?, hdot]
  cases kind <;> first | rfl | cases h

theorem pseudoName?_closer (colons : List Token) (isElement : Bool) (rest : List Token) :
    pseudoName? colons isElement (token :: rest) = none := by
  rcases token with ⟨kind, text, start⟩
  cases kind <;> first | rfl | cases h

theorem combinator?_closer : combinator? token = none := by
  rcases token with ⟨kind, text, start⟩
  cases kind <;> first | rfl | cases h

theorem isOf_closer : isOf token = false := by
  rcases token with ⟨kind, text, start⟩
  cases kind <;> first | rfl | cases h

theorem word?_closer (source : SourceName) : word? source [token] = none := by
  rcases token with ⟨kind, text, start⟩
  cases kind <;> first | rfl | cases h

end Closer

section Runs

variable (htokens : Token.Reshapes reshape)
include htokens

theorem matcher?_map (run : List Token) :
    matcher? (run.map reshape) =
      (matcher? run).map fun (matcher, rest) => (matcher, rest.map reshape) := by
  cases run with
  | nil => rfl
  | cons first rest =>
      cases hcloser : first.isCloser with
      | true =>
          rw [List.map_cons, matcher?_closer hcloser, matcher?_closer (htokens.closer _ hcloser)]
          rfl
      | false =>
          rcases htokens.exists_start hcloser with ⟨start, hfirst⟩
          rw [List.map_cons, hfirst]
          rcases first with ⟨kind, text, start'⟩
          cases kind with
          | delim c =>
              by_cases hc : c = '='
              · subst hc
                rfl
              · cases rest with
                | nil => simp [matcher?, hc]
                | cons second rest =>
                    cases hcloser' : second.isCloser with
                    | true =>
                        rw [List.map_cons, matcher?_delim_closer hcloser' hc,
                          matcher?_delim_closer (htokens.closer _ hcloser') hc]
                        rfl
                    | false =>
                        rcases htokens.exists_start hcloser' with ⟨start, hsecond⟩
                        rw [List.map_cons, hsecond]
                        rcases second with ⟨kind, text, start'⟩
                        cases kind with
                        | delim d =>
                            by_cases hd : d = '='
                            · subst hd
                              simp only [matcher?]
                              split <;> rfl
                            · simp [matcher?, hc, hd]
                        | _ => simp [matcher?, hc]
          | _ => rfl

theorem attributeFlags?_map (run : List Token) :
    attributeFlags? (run.map reshape) = attributeFlags? run := by
  cases run with
  | nil => rfl
  | cons token rest =>
      cases hcloser : token.isCloser with
      | true =>
          rw [List.map_cons, attributeFlags?_closer hcloser,
            attributeFlags?_closer (htokens.closer _ hcloser)]
      | false =>
          rcases htokens.exists_start hcloser with ⟨start, htoken⟩
          rw [List.map_cons, htoken]
          rcases token with ⟨kind, text, start'⟩
          cases rest <;> cases kind <;> rfl

theorem startsBar_map (run : List Token) : startsBar (run.map reshape) = startsBar run := by
  cases run with
  | nil => rfl
  | cons token rest =>
      cases hcloser : token.isCloser with
      | true =>
          rw [List.map_cons, startsBar_closer hcloser, startsBar_closer (htokens.closer _ hcloser)]
      | false =>
          rcases htokens.exists_start hcloser with ⟨start, htoken⟩
          rw [List.map_cons, htoken]
          rcases token with ⟨kind, text, start'⟩
          cases kind with
          | delim c =>
              by_cases hc : c = '|'
              · subst hc
                rfl
              · simp [startsBar, hc]
          | _ => rfl

theorem startsType_map (run : List Token) : startsType (run.map reshape) = startsType run := by
  cases run with
  | nil => rfl
  | cons token rest =>
      cases hcloser : token.isCloser with
      | true =>
          rw [List.map_cons, startsType_closer hcloser,
            startsType_closer (htokens.closer _ hcloser)]
      | false =>
          rcases htokens.exists_start hcloser with ⟨start, htoken⟩
          rw [List.map_cons, htoken]
          rcases token with ⟨kind, text, start'⟩
          cases kind with
          | delim c =>
              by_cases hc : c = '*'
              · subst hc
                rfl
              · simp [startsType, hc]
          | _ => rfl

theorem isOf_map (token : Token) : isOf (reshape token) = isOf token := by
  cases hcloser : token.isCloser with
  | true => rw [isOf_closer hcloser, isOf_closer (htokens.closer _ hcloser)]
  | false => rw [isOf, isOf, htokens.kind token hcloser]

theorem combinator?_map (token : Token) : combinator? (reshape token) = combinator? token := by
  cases hcloser : token.isCloser with
  | true => rw [combinator?_closer hcloser, combinator?_closer (htokens.closer _ hcloser)]
  | false => rw [combinator?, combinator?, htokens.kind token hcloser]

theorem splitOf?_map (run : List Token) :
    splitOf? (run.map reshape) =
      (splitOf? run).map fun (before, after) => (before.map reshape, after.map reshape) := by
  have hcut : forall space word : Token,
      ((reshape space).kind = .whitespace && isOf (reshape word)) =
        (space.kind = .whitespace && isOf word) := by
    intro space word
    have hspace : (reshape space).kind = .whitespace <-> space.kind = .whitespace :=
      htokens.kind_eq_iff rfl space
    rw [isOf_map htokens, decide_eq_decide.mpr hspace]
  fun_induction splitOf? run with
  | case1 space word rest hof =>
      rw [List.map_cons, List.map_cons, splitOf?, hcut, if_pos hof]
      rfl
  | case2 space word rest hof ih =>
      rw [List.map_cons] at ih
      rw [List.map_cons, List.map_cons, splitOf?, hcut, if_neg hof, ih]
      cases splitOf? (word :: rest) <;> rfl
  | case3 run hshort =>
      cases run with
      | nil => rfl
      | cons space rest =>
          cases rest with
          | nil => rfl
          | cons word rest => exact absurd rfl (hshort space word rest)

theorem position?_map (follow : Node -> Node) (run : List Token) :
    position? (run.map reshape) = (position? run).map (Construct.map follow) := by
  simp only [position?, Run.text_map htokens]
  split
  · rfl
  · cases AnPlusB.parse? _ <;> rfl

theorem listParts_map (run : List Token) :
    listParts (run.map reshape) = (listParts run).map (List.map reshape) := by
  unfold listParts
  rw [Run.trim_map htokens, Run.splitTopLevel_map htokens]

/-- A pseudo-class or pseudo-element with a function applied to its tokens. -/
def Pseudo.map (f : Token -> Token) (pseudo : Pseudo) : Pseudo :=
  { pseudo with
    run := pseudo.run.map f
    arguments := pseudo.arguments.map (List.map f)
    rest := pseudo.rest.map f }

theorem pseudoName?_map (colons : List Token) (isElement : Bool) (run : List Token) :
    pseudoName? (colons.map reshape) isElement (run.map reshape) =
      (pseudoName? colons isElement run).map (Pseudo.map reshape) := by
  cases run with
  | nil => rfl
  | cons token rest =>
      rw [List.map_cons]
      cases hcloser : token.isCloser with
      | true =>
          rw [pseudoName?_closer hcloser, pseudoName?_closer (htokens.closer _ hcloser)]
          rfl
      | false =>
          rw [pseudoName?, pseudoName?, htokens.kind token hcloser]
          split
          · simp [Pseudo.map]
          · rw [Run.splitGroup?_map htokens]
            cases Run.splitGroup? 0 rest with
            | none => rfl
            | some group => simp [Pseudo.map, Run.Group.map]
          · rfl

theorem pseudo?_map (colon : Token) (run : List Token) :
    pseudo? (reshape colon) (run.map reshape) = (pseudo? colon run).map (Pseudo.map reshape) := by
  cases run with
  | nil => rfl
  | cons second rest =>
      have hsecond : (reshape second).kind = .colon <-> second.kind = .colon :=
        htokens.kind_eq_iff rfl second
      rw [List.map_cons, pseudo?, pseudo?]
      simp only [hsecond]
      split
      · exact pseudoName?_map htokens [colon, second] true rest
      · exact pseudoName?_map htokens [colon] false (second :: rest)

end Runs

/-! ## Nodes -/

section Nodes

variable (h : Node.Follows reshape source source' follow)
include h

theorem isCombinator_map (node : Node) : (follow node).isCombinator = node.isCombinator := by
  unfold Node.isCombinator
  rw [h.type]

theorem endsSimple_map (nodes : List Node) : endsSimple (nodes.map follow) = endsSimple nodes := by
  cases nodes with
  | nil => rfl
  | cons last earlier => rw [List.map_cons, endsSimple, endsSimple, isCombinator_map h]

theorem endsCombinator_map (nodes : List Node) :
    endsCombinator (nodes.map follow) = endsCombinator nodes := by
  cases nodes with
  | nil => rfl
  | cons last earlier => rw [List.map_cons, endsCombinator, endsCombinator, isCombinator_map h]

theorem addDescendant_map (gap : Option Token) (nodes : List Node) :
    addDescendant source' (gap.map reshape) (nodes.map follow) =
      (addDescendant source gap nodes).map follow := by
  cases gap with
  | none => rfl
  | some token =>
      exact congrArg (· :: nodes.map follow) (h.ofToken token (.combinator " ")).symm

end Nodes

/-- A simple selector with functions applied to its node and to the tokens behind it. -/
def Simple.map (f : Token -> Token) (g : Node -> Node) (simple : Simple) : Simple :=
  ⟨g simple.node, simple.rest.map f⟩

section Readers

variable (htokens : Token.Reshapes reshape) (h : Node.Follows reshape source source' follow)
include htokens h

/-! ## Simple selectors -/

theorem attributeValue?_map (token : Token) :
    attributeValue? source' (reshape token) = (attributeValue? source token).map follow := by
  cases hcloser : token.isCloser with
  | true =>
      rw [attributeValue?_closer hcloser, attributeValue?_closer (htokens.closer _ hcloser)]
      rfl
  | false =>
      unfold attributeValue?
      rw [htokens.kind token hcloser]
      split
      · exact congrArg some (h.ofToken token (.identifier _)).symm
      · exact congrArg some (h.ofToken token (.string _)).symm
      · rfl

theorem attribute?_map (content : List Token) :
    attribute? source' (content.map reshape) =
      (attribute? source content).map (Construct.map follow) := by
  have hmap := Run.significant_map htokens content
  cases hcontent : Run.significant content with
  | nil =>
      rw [hcontent] at hmap
      rw [attribute?, attribute?, hcontent, hmap]
      rfl
  | cons first comparison =>
      rw [hcontent, List.map_cons] at hmap
      cases hcloser : first.isCloser with
      | true =>
          rw [attribute?_closer hcloser hcontent, attribute?_closer (htokens.closer _ hcloser) hmap]
          rfl
      | false =>
          rcases htokens.exists_start hcloser with ⟨start, hfirst⟩
          rw [hfirst] at hmap
          rcases first with ⟨kind, text, start'⟩
          unfold attribute?
          rw [hcontent, hmap]
          cases kind with
          | ident name =>
              cases comparison with
              | nil => rfl
              | cons second comparison =>
                  have hmatcher := matcher?_map htokens (second :: comparison)
                  rw [List.map_cons] at hmatcher
                  simp only [List.map_cons]
                  rw [hmatcher]
                  cases matcher? (second :: comparison) with
                  | none => rfl
                  | some found =>
                      rcases found with ⟨matcher, behind⟩
                      cases behind with
                      | nil => rfl
                      | cons token rest =>
                          simp only [Option.map_some, List.map_cons, attributeValue?_map htokens h,
                            attributeFlags?_map htokens]
                          cases attributeValue? source token <;> cases attributeFlags? rest <;> rfl
          | _ => rfl

theorem type?_map (token : Token) (name : String) (rest : List Token) :
    type? source' (reshape token) name (rest.map reshape) =
      (type? source token name rest).map (Simple.map reshape follow) := by
  unfold type?
  rw [startsBar_map htokens]
  split
  · rfl
  · have hnode := h.ofToken token (.typeSelector name)
    exact congrArg (fun node => some (Simple.mk node (rest.map reshape))) hnode.symm

theorem simple?_dot_map {dot : Token} (hdot : dot.kind = .delim '.') (rest : List Token) :
    simple? source' (reshape dot) (rest.map reshape) =
      (simple? source dot rest).map (Simple.map reshape follow) := by
  have hdot' : (reshape dot).kind = .delim '.' := (htokens.kind_eq_iff rfl dot).mpr hdot
  cases rest with
  | nil =>
      rw [List.map_nil, simple?, simple?, hdot, hdot']
      rfl
  | cons word after =>
      rw [List.map_cons]
      cases hcloser : word.isCloser with
      | true =>
          rw [simple?_dot_closer hcloser hdot, simple?_dot_closer (htokens.closer _ hcloser) hdot']
          rfl
      | false =>
          simp only [simple?, hdot, hdot', htokens.kind word hcloser]
          split
          · rename_i name _
            have hnode := h.spanning [dot, word] (.classSelector name)
            exact congrArg (fun node => some (Simple.mk node (after.map reshape))) hnode.symm
          · rfl

theorem simple?_map (token : Token) (rest : List Token) :
    simple? source' (reshape token) (rest.map reshape) =
      (simple? source token rest).map (Simple.map reshape follow) := by
  cases hcloser : token.isCloser with
  | true =>
      rw [simple?_closer hcloser, simple?_closer (htokens.closer _ hcloser)]
      rfl
  | false =>
      unfold simple?
      rw [htokens.kind token hcloser]
      split
      · exact type?_map htokens h token _ rest
      · exact type?_map htokens h token _ rest
      · rename_i hdot
        have hclass := simple?_dot_map htokens h hdot rest
        simp only [simple?, hdot, (htokens.kind_eq_iff rfl token).mpr hdot] at hclass
        exact hclass
      · rename_i name _
        have hnode := h.ofToken token (.idSelector name)
        exact congrArg (fun node => some (Simple.mk node (rest.map reshape))) hnode.symm
      · rw [Run.splitGroup?_map htokens]
        cases Run.splitGroup? 0 rest with
        | none => rfl
        | some group =>
            rcases group with ⟨content, closer, after⟩
            simp only [Option.map_some, Run.Group.map, attribute?_map htokens h]
            cases attribute? source content with
            | none => rfl
            | some construct =>
                have hnode := h.spanning (token :: content ++ [closer]) construct
                rw [List.map_append] at hnode
                exact congrArg (fun node => some (Simple.mk node (after.map reshape))) hnode.symm
      · rfl

/-! ## Arguments -/

theorem word?_map (run : List Token) :
    word? source' (run.map reshape) = (word? source run).map follow := by
  cases run with
  | nil => rfl
  | cons token rest =>
      cases rest with
      | nil =>
          rw [List.map_cons, List.map_nil]
          cases hcloser : token.isCloser with
          | true =>
              rw [word?_closer hcloser, word?_closer (htokens.closer _ hcloser)]
              rfl
          | false =>
              rw [word?, word?, htokens.kind token hcloser]
              split
              · exact congrArg some (h.ofToken token (.identifier _)).symm
              · rfl
      | cons => rfl

theorem nth?_map (run formula : List Token) (selectors : Option Node) :
    nth? source' (run.map reshape) (formula.map reshape) (selectors.map follow) =
      (nth? source run formula selectors).map follow := by
  unfold nth?
  rw [position?_map htokens follow]
  cases position? formula with
  | none => rfl
  | some construct =>
      have hformula := h.spanning formula construct
      have hrun := h.spanning run (.nth (Node.spanning source formula construct) selectors)
      rw [Option.map_some, Option.map_some, Option.map_some, Option.map_some, ← hformula]
      exact congrArg some hrun.symm

/-! ## Complex selectors -/

theorem list?_map (run : List Token)
    (hparts : forall part, part ∈ listParts run ->
      parts? source' [] none ((Run.trim part).map reshape) =
        (parts? source [] none (Run.trim part)).map (List.map follow)) :
    list? source' (run.map reshape) = (list? source run).map follow := by
  have hselectors : (listParts run).mapM (fun part =>
        (parts? source' [] none (Run.trim (part.map reshape))).map
          (ofPart source' (part.map reshape))) =
      ((listParts run).mapM fun part =>
        (parts? source [] none (Run.trim part)).map (ofPart source part)).map
          (List.map follow) := by
    rw [← mapM_option_map]
    refine mapM_congr ?_
    intro part hpart
    rw [Run.trim_map htokens, hparts part hpart]
    cases parts? source [] none (Run.trim part) with
    | none => rfl
    | some nodes =>
        have hnode := h.spanning (Run.trim part) (.selector nodes)
        rw [← Run.trim_map htokens] at hnode
        exact congrArg some hnode.symm
  rw [list?_eq, list?_eq, listParts_map htokens, List.mapM_map]
  unfold Function.comp
  rw [hselectors]
  cases (listParts run).mapM fun part =>
      (parts? source [] none (Run.trim part)).map (ofPart source part) with
  | none => rfl
  | some selectors =>
      have hnode := h.spanning (Run.trim run) (.selectorList selectors)
      rw [← Run.trim_map htokens] at hnode
      exact congrArg some hnode.symm

theorem argument_map (name : String) (run : List Token)
    (hlist : list? source' (run.map reshape) = (list? source run).map follow)
    (hafter : forall before after, splitOf? run = some (before, after) ->
      list? source' (after.map reshape) = (list? source after).map follow) :
    argument source' name (run.map reshape) = follow (argument source name run) := by
  have hgetD : forall modelled : Option Node,
      (modelled.map follow).getD (Node.rawRun source' (run.map reshape)) =
        follow (modelled.getD (Node.rawRun source run)) := by
    intro modelled
    cases modelled with
    | none => exact (h.rawRun htokens run).symm
    | some node => rfl
  rw [argument_eq, argument_eq, ← hgetD]
  congr 1
  split
  · exact hlist
  split
  · rw [splitOf?_map htokens]
    cases hof : splitOf? run with
    | none => exact nth?_map htokens h run run none
    | some halves =>
        rcases halves with ⟨before, after⟩
        simp only [Option.map_some]
        rw [hafter before after hof, Run.trim_map htokens]
        cases list? source after with
        | none => rfl
        | some selectors => exact nth?_map htokens h run (Run.trim before) (some selectors)
  split
  · exact word?_map htokens h run
  · rfl

theorem node_map (pseudo : Pseudo)
    (harguments : forall arguments, pseudo.arguments = some arguments ->
      argument source' pseudo.name ((Run.trim arguments).map reshape) =
        follow (argument source pseudo.name (Run.trim arguments))) :
    (pseudo.map reshape).node source' = follow (pseudo.node source) := by
  have hconstruct : forall children : Option (List Node),
      pseudo.construct (children.map (List.map follow)) =
        (pseudo.construct children).map follow := by
    intro children
    unfold Pseudo.construct
    split <;> rfl
  unfold Pseudo.node
  rw [h.spanning, ← hconstruct]
  unfold Pseudo.map
  cases hcalled : pseudo.arguments with
  | none => rfl
  | some arguments =>
      rw [Option.map_some, Option.map_some, Option.map_some, Run.trim_map htokens,
        harguments arguments hcalled]
      rfl

theorem reads_map :
    (forall run, list? source' (run.map reshape) = (list? source run).map follow) ∧
      (forall earlier gap run,
        parts? source' (earlier.map follow) (gap.map reshape) (run.map reshape) =
          (parts? source earlier gap run).map (List.map follow)) ∧
      forall name run,
        argument source' name (run.map reshape) = follow (argument source name run) := by
  have hall := list?.mutual_induct source
    (fun run => list? source' (run.map reshape) = (list? source run).map follow)
    (fun earlier gap run =>
      parts? source' (earlier.map follow) (gap.map reshape) (run.map reshape) =
        (parts? source earlier gap run).map (List.map follow))
    (fun name run => argument source' name (run.map reshape) = follow (argument source name run))
  apply hall
  · intro run hparts
    exact list?_map htokens h run hparts
  · intro earlier gap hends
    have hends' := endsSimple_map h earlier
    rw [hends] at hends'
    rw [List.map_nil, parts?, parts?, if_pos hends, if_pos hends', ← List.map_reverse]
    rfl
  · intro earlier gap hends
    have hends' := endsSimple_map h earlier
    rw [List.map_nil, parts?, parts?, if_neg hends, if_neg (hends' ▸ hends)]
    rfl
  · intro earlier gap token rest hkind ih
    have hkind' : (reshape token).kind = .whitespace := (htokens.kind_eq_iff rfl token).mpr hkind
    rw [dite_eq_ite] at ih
    rw [List.map_cons, parts?_whitespace hkind, parts?_whitespace hkind', endsSimple_map h, ← ih]
    split <;> rfl
  · intro earlier gap token rest content hkind ih
    have hkind' : (reshape token).kind = .comment content :=
      (htokens.kind_eq_iff rfl token).mpr hkind
    rw [dite_eq_ite] at ih
    rw [List.map_cons, parts?_comment hkind, parts?_comment hkind', endsSimple_map h,
      startsType_map htokens, ← ih]
    split <;> rfl
  · intro earlier gap token rest hkind hpseudo
    have hkind' : (reshape token).kind = .colon := (htokens.kind_eq_iff rfl token).mpr hkind
    rw [List.map_cons, parts?_colon hkind, parts?_colon hkind', pseudo?_map htokens, hpseudo]
    rfl
  · intro earlier gap token rest hkind pseudo hpseudo children node hchild ih
    have hkind' : (reshape token).kind = .colon := (htokens.kind_eq_iff rfl token).mpr hkind
    have hnode : node = pseudo.node source := by
      simp only [node, children, Pseudo.node]
      cases pseudo.arguments <;> rfl
    rw [hnode, List.map_cons, ← node_map htokens h pseudo hchild, ← addDescendant_map h] at ih
    rw [List.map_cons, parts?_colon hkind, parts?_colon hkind', pseudo?_map htokens, hpseudo]
    exact ih
  · intro earlier gap token rest name hname hends _ _ _
    have hname' := (combinator?_map htokens token).trans hname
    rw [List.map_cons, parts?_combinator hname, parts?_combinator hname', endsCombinator_map h,
      if_pos hends, if_pos hends]
    rfl
  · intro earlier gap token rest name hname hends node _ _ _ ih
    have hname' := (combinator?_map htokens token).trans hname
    rw [List.map_cons, parts?_combinator hname, parts?_combinator hname', endsCombinator_map h,
      if_neg hends, if_neg hends, ← ih]
    have hnode := h.ofToken token (.combinator name)
    exact congrArg (fun node => parts? source' (node :: earlier.map follow) none _) hnode.symm
  · intro earlier gap token rest hcombinator hsimple hwhitespace hcomment hcolon
    have hsimple' := simple?_map htokens h token rest
    have hcombinator' := (combinator?_map htokens token).trans hcombinator
    rw [hsimple] at hsimple'
    rw [List.map_cons, parts?_none hcombinator hsimple hwhitespace hcomment hcolon,
      parts?_none hcombinator' hsimple' (mt (htokens.kind_eq_iff rfl token).mp hwhitespace)
        (fun content => mt (htokens.kind_eq_iff rfl token).mp (hcomment content))
        (mt (htokens.kind_eq_iff rfl token).mp hcolon)]
    rfl
  · intro earlier gap token rest hcombinator simple hsimple _ _ _ ih
    have hsimple' := simple?_map htokens h token rest
    rw [hsimple] at hsimple'
    rw [List.map_cons, parts?_simple hsimple, parts?_simple hsimple', addDescendant_map h]
    exact ih
  · intro name run hlist hafter
    exact argument_map htokens h name run hlist hafter

theorem prelude_map (run : List Token) :
    prelude source' (run.map reshape) = follow (prelude source run) := by
  unfold prelude
  rw [Run.trim_map htokens, (reads_map htokens h).1]
  cases list? source (Run.trim run) with
  | none => exact (h.rawRun htokens _).symm
  | some list => rfl

end Readers

end Selector
end Stylesheet
