import Stylesheet.Proofs.Lists
import Stylesheet.Proofs.Media.Derivation
import Stylesheet.Proofs.Reshaped.Nodes
import Stylesheet.Proofs.Value.Derivation

/-!
# Components and media queries of reshaped tokens

No reader of components or media queries looks at the shape of a closer or at the place of a token,
so what is read of a reshaped run is what follows the nodes of the run.
-/

namespace Stylesheet

variable {reshape : Token -> Token} {source source' : SourceName} {follow : Node -> Node}

/-! ## Components -/

namespace Value

section Nodes

variable (h : Node.Follows reshape source source' follow)
include h

theorem isTight_map (node : Node) : isTight (follow node) = isTight node := by
  unfold isTight
  rw [h.construct]
  cases node.construct <;> rfl

theorem gap_map (before space : Option Node) (after : Node) :
    gap (before.map follow) (space.map follow) (follow after) =
      (gap before space after).map follow := by
  cases before with
  | none => rfl
  | some before =>
      cases space with
      | none => rfl
      | some space =>
          simp only [gap, Option.map_some, isTight_map h]
          split <;> rfl

theorem normalizeAfter_map (before space : Option Node) (nodes : List Node) :
    normalizeAfter (before.map follow) (space.map follow) (nodes.map follow) =
      (normalizeAfter before space nodes).map follow := by
  induction nodes generalizing before space with
  | nil => rfl
  | cons node rest ih =>
      rw [List.map_cons, normalizeAfter, normalizeAfter, h.isWhiteSpace]
      split
      · rw [← ih]
        cases space <;> rfl
      · rw [gap_map h, List.map_append, List.map_cons]
        exact congrArg (_ ++ follow node :: ·) (ih (some node) none)

theorem normalize_map (nodes : List Node) :
    normalize (nodes.map follow) = (normalize nodes).map follow :=
  normalizeAfter_map h none none nodes

theorem loneString?_map (nodes : List Node) :
    loneString? (nodes.map follow) = (loneString? nodes).map follow := by
  cases nodes with
  | nil => rfl
  | cons node rest =>
      cases rest with
      | nil =>
          simp only [List.map_cons, List.map_nil, loneString?, h.type]
          split <;> rfl
      | cons => rfl

theorem group_map (opener : TokenKind) (children : List Node) :
    group opener (children.map follow) = (group opener children).map follow := by
  unfold group
  split
  · rw [loneString?_map h]
    cases sameWord _ "url" <;> cases loneString? children <;> rfl
  · rfl
  · rfl

end Nodes

theorem not_opensGroup_of_isCloser {token : Token} (h : token.isCloser = true) :
    opensGroup token = false := by
  unfold Token.isCloser TokenKind.isCloser at h
  unfold opensGroup
  split at h <;> simp_all

section Tokens

variable (htokens : Token.Reshapes reshape) (h : Node.Follows reshape source source' follow)

theorem single?_of_isCloser (source : SourceName) {token : Token} (h : token.isCloser = true) :
    single? source token = none := by
  unfold Token.isCloser TokenKind.isCloser at h
  unfold single?
  split at h <;> simp_all

include htokens

theorem opensGroup_map (token : Token) : opensGroup (reshape token) = opensGroup token := by
  cases hcloser : token.isCloser with
  | false => rw [opensGroup, opensGroup, htokens.kind token hcloser]
  | true =>
      rw [not_opensGroup_of_isCloser hcloser, not_opensGroup_of_isCloser (htokens.closer _ hcloser)]

include h

theorem single?_map (token : Token) :
    single? source' (reshape token) = (single? source token).map (Construct.map follow) := by
  cases hcloser : token.isCloser with
  | true =>
      rw [single?_of_isCloser _ hcloser, single?_of_isCloser _ (htokens.closer _ hcloser)]
      rfl
  | false =>
      unfold single?
      rw [htokens.kind token hcloser]
      split <;> try rfl
      rw [Option.map_some, Construct.map, h.ofToken]
      rfl

theorem spacedComponents?_map (run : List Token) :
    spacedComponents? source' (run.map reshape) =
      (spacedComponents? source run).map (List.map follow) := by
  fun_induction spacedComponents? source run with
  | case1 => rw [List.map_nil, spacedComponents?]; rfl
  | case2 token rest construct hsingle ih =>
      have hsingle' := single?_map htokens h token
      rw [hsingle] at hsingle'
      rw [List.map_cons, spacedComponents?_single hsingle', ih, ← h.ofToken]
      cases spacedComponents? source rest <;> rfl
  | case3 token rest hsingle hopens hgroup =>
      rw [List.map_cons, spacedComponents?_group ((opensGroup_map htokens token).trans hopens),
        Run.splitGroup?_map htokens, hgroup]
      rfl
  | case4 token rest hsingle hopens content closer after hgroup hcontent ih =>
      rw [hcontent] at ih
      rw [List.map_cons, spacedComponents?_group ((opensGroup_map htokens token).trans hopens),
        Run.splitGroup?_map htokens, hgroup, Option.map_some, Option.bind_some]
      unfold Run.Group.map
      rw [ih]
      rfl
  | case5 token rest hsingle hopens content closer after hgroup children hcontent node ih =>
      rename_i ihafter
      have hkind : (reshape token).kind = token.kind := by
        refine htokens.kind token ?_
        rw [← Bool.not_eq_true]
        intro hcloser
        rw [not_opensGroup_of_isCloser hcloser] at hopens
        cases hopens
      have hnode := h.spanning (token :: content ++ [closer])
        (group token.kind (normalize children))
      rw [hcontent] at ih
      rw [List.map_cons, spacedComponents?_group ((opensGroup_map htokens token).trans hopens),
        Run.splitGroup?_map htokens, hgroup, Option.map_some, Option.bind_some]
      unfold Run.Group.map
      rw [ih, ihafter, Option.map_some, Option.bind_some, normalize_map h, hkind, group_map h]
      rw [List.map_append] at hnode
      cases spacedComponents? source after with
      | none => rfl
      | some nodes => exact congrArg (fun node => some (node :: nodes.map follow)) hnode.symm
  | case6 token rest hsingle hopens =>
      have hsingle' := single?_map htokens h token
      have hopens' := (opensGroup_map htokens token).trans (Bool.not_eq_true _ ▸ hopens)
      rw [hsingle] at hsingle'
      rw [List.map_cons, spacedComponents?_none hsingle' hopens']
      rfl

theorem components?_map (run : List Token) :
    components? source' (run.map reshape) = (components? source run).map (List.map follow) := by
  unfold components?
  rw [spacedComponents?_map htokens h]
  cases spacedComponents? source run with
  | none => rfl
  | some nodes => exact congrArg some (normalize_map h nodes)

theorem ofRun_map (run : List Token) :
    ofRun source' (run.map reshape) = follow (ofRun source run) := by
  unfold ofRun
  rw [Run.trim_map htokens, components?_map htokens h]
  cases components? source (Run.trim run) with
  | none => exact (h.rawRun htokens _).symm
  | some children => exact (h.spanning (Run.trim run) (.value children)).symm

end Tokens

end Value

/-! ## Media queries -/

namespace Media

theorem addSpace_map (h : Node.Follows reshape source source' follow) (space : Node)
    (parts : List Node) :
    addSpace (follow space) (parts.map follow) = (addSpace space parts).map follow := by
  cases parts with
  | nil => rfl
  | cons last earlier =>
      simp only [List.map_cons, addSpace, h.isWhiteSpace]
      split <;> rfl

theorem dropSpace_map (h : Node.Follows reshape source source' follow) (parts : List Node) :
    dropSpace (parts.map follow) = (dropSpace parts).map follow := by
  cases parts with
  | nil => rfl
  | cons last earlier =>
      simp only [List.map_cons, dropSpace, h.isWhiteSpace]
      split <;> rfl

theorem not_isCloser_of_featureValue? {run : List Token} {value : Construct Node}
    (h : featureValue? run = some value) :
    forall token, token ∈ Run.significant run -> token.isCloser = false := by
  have hkinds : forall kind, kind ∈ (Run.significant run).map Token.kind ->
      kind.isCloser = false := by
    unfold featureValue? at h
    split at h
    case h_5 => cases h
    all_goals
      rename_i hkinds
      rw [hkinds]
      simp [TokenKind.isCloser]
  exact fun token htoken => hkinds token.kind (List.mem_map_of_mem htoken)

theorem feature?_closer {content rest : List Token} {token : Token}
    (h : Run.trim content = token :: rest) (hcloser : token.isCloser = true) :
    feature? source content = none := by
  rcases token with ⟨kind, text, start⟩
  rw [feature?, h]
  cases kind <;> first | rfl | cases hcloser

section Tokens

variable (htokens : Token.Reshapes reshape) (h : Node.Follows reshape source source' follow)
include htokens

theorem featureValue?_map (follow : Node -> Node) (run : List Token) :
    featureValue? (run.map reshape) = (featureValue? run).map (Construct.map follow) := by
  by_cases hplain : forall token, token ∈ Run.significant run -> token.isCloser = false
  · have hkinds : ((Run.significant run).map reshape).map Token.kind =
        (Run.significant run).map Token.kind := by
      rw [List.map_map]
      exact List.map_congr_left fun token htoken => htokens.kind token (hplain token htoken)
    unfold featureValue?
    rw [Run.significant_map htokens, hkinds]
    split <;> rfl
  · have hnone : featureValue? run = none := by
      rw [Option.eq_none_iff_forall_ne_some]
      exact fun value hvalue => hplain (not_isCloser_of_featureValue? hvalue)
    have hnone' : featureValue? (run.map reshape) = none := by
      rw [Option.eq_none_iff_forall_ne_some]
      intro value hvalue
      refine hplain fun token htoken => ?_
      rw [← htokens.isCloser]
      refine not_isCloser_of_featureValue? hvalue _ ?_
      rw [Run.significant_map htokens]
      exact List.mem_map_of_mem htoken
    rw [hnone, hnone']
    rfl

include h

theorem feature?_map (content : List Token) :
    feature? source' (content.map reshape) =
      (feature? source content).map (Construct.map follow) := by
  have hmap := Run.trim_map htokens content
  cases hcontent : Run.trim content with
  | nil =>
      rw [hcontent] at hmap
      rw [feature?, feature?, hcontent, hmap]
      rfl
  | cons word rest =>
      rw [hcontent, List.map_cons] at hmap
      cases hcloser : word.isCloser with
      | true =>
          rw [feature?_closer hcontent hcloser, feature?_closer hmap (htokens.closer _ hcloser)]
          rfl
      | false =>
          rcases htokens.exists_start hcloser with ⟨start, hword⟩
          rw [hword] at hmap
          rcases word with ⟨kind, text, start'⟩
          unfold feature?
          rw [hcontent, hmap]
          cases kind with
          | ident name =>
              simp only [Run.trim_map htokens]
              cases Run.trim rest with
              | nil => rfl
              | cons colon value =>
                  have hcolon : (reshape colon).kind = .colon <-> colon.kind = .colon :=
                    htokens.kind_eq_iff rfl colon
                  simp only [List.map_cons, hcolon, Run.trim_map htokens,
                    featureValue?_map htokens follow]
                  split
                  · cases featureValue? (Run.trim value) with
                    | none => rfl
                    | some construct =>
                        have hvalue := h.spanning (Run.trim value) construct
                        exact congrArg
                          (fun node => some (Construct.mediaFeature name (some node))) hvalue.symm
                  · rfl
          | _ => rfl

theorem queryParts?_map (parts : List Node) (run : List Token) :
    queryParts? source' (parts.map follow) (run.map reshape) =
      (queryParts? source parts run).map (List.map follow) := by
  fun_induction queryParts? source parts run with
  | case1 parts =>
      rw [List.map_nil, queryParts?, dropSpace_map h, ← List.map_reverse]
      rfl
  | case2 parts token rest hkind ih =>
      have htrivia : token.isTrivia = true := congrArg TokenKind.isTrivia hkind
      rw [← addSpace_map h, h.ofToken] at ih
      rw [List.map_cons, queryParts?_trivia ((htokens.isTrivia token).trans htrivia)]
      exact ih
  | case3 parts token rest content hkind ih =>
      have htrivia : token.isTrivia = true := congrArg TokenKind.isTrivia hkind
      rw [← addSpace_map h, h.ofToken] at ih
      rw [List.map_cons, queryParts?_trivia ((htokens.isTrivia token).trans htrivia)]
      exact ih
  | case4 parts token rest name hkind ih =>
      rw [List.map_cons, h.ofToken] at ih
      rw [List.map_cons, queryParts?_word ((htokens.kind_eq_iff rfl token).mpr hkind)]
      exact ih
  | case5 parts token rest hkind hgroup =>
      rw [List.map_cons, queryParts?_feature ((htokens.kind_eq_iff rfl token).mpr hkind),
        Run.splitGroup?_map htokens, hgroup]
      rfl
  | case6 parts token rest hkind content closer after hgroup hfeature =>
      have hfeature' := feature?_map htokens h content
      rw [hfeature] at hfeature'
      rw [List.map_cons, queryParts?_feature ((htokens.kind_eq_iff rfl token).mpr hkind),
        Run.splitGroup?_map htokens, hgroup, Option.map_some, Option.bind_some]
      unfold Run.Group.map
      rw [hfeature']
      rfl
  | case7 parts token rest hkind content closer after hgroup construct hfeature node =>
      rename_i ih
      have hfeature' := feature?_map htokens h content
      have hnode := h.spanning (token :: content ++ [closer]) construct
      rw [hfeature] at hfeature'
      rw [List.map_cons] at ih
      rw [List.map_append] at hnode
      rw [List.map_cons, queryParts?_feature ((htokens.kind_eq_iff rfl token).mpr hkind),
        Run.splitGroup?_map htokens, hgroup, Option.map_some, Option.bind_some]
      unfold Run.Group.map
      rw [hfeature', Option.map_some, Option.bind_some]
      change queryParts? source' (Node.spanning source' _ _ :: _) _ = _
      rw [← ih]
      exact congrArg (fun node => queryParts? source' (node :: parts.map follow) _) hnode.symm
  | case8 parts token rest hwhitespace hcomment hword hparen =>
      have htrivia : (reshape token).isTrivia = false := by
        rw [htokens.isTrivia]
        unfold Token.isTrivia TokenKind.isTrivia
        split
        · exact absurd ‹_› hwhitespace
        · exact absurd ‹_› (hcomment _)
        · rfl
      rw [List.map_cons, queryParts?_none htrivia
        (fun name => mt (htokens.kind_eq_iff rfl token).mp (hword name))
        (mt (htokens.kind_eq_iff rfl token).mp hparen)]
      rfl

theorem query?_map (run : List Token) :
    query? source' (run.map reshape) = (query? source run).map follow := by
  have hparts := queryParts?_map htokens h [] run
  unfold query?
  rw [List.isEmpty_map]
  split
  · rfl
  · rw [List.map_nil] at hparts
    rw [hparts]
    cases queryParts? source [] run with
    | none => rfl
    | some parts => exact congrArg some (h.spanning run (.mediaQuery parts)).symm

theorem queryList?_map (run : List Token) :
    queryList? source' (run.map reshape) = (queryList? source run).map follow := by
  unfold queryList?
  have hpart : (fun part => query? source' (Run.trim part)) ∘ List.map reshape =
      fun part => (query? source (Run.trim part)).map follow := by
    funext part
    rw [Function.comp, Run.trim_map htokens, query?_map htokens h]
  rw [Run.splitTopLevel_map htokens, List.mapM_map, hpart, mapM_option_map]
  cases (Run.splitTopLevel (· == .comma) 0 run).mapM fun part => query? source (Run.trim part) with
  | none => rfl
  | some queries => exact congrArg some (h.spanning run (.mediaQueryList queries)).symm

theorem preludeNodes_map (name : String) (run : List Token) :
    preludeNodes source' name (run.map reshape) = (preludeNodes source name run).map follow := by
  have hplain : (Value.components? source' (run.map reshape)).getD
      [Node.rawRun source' (run.map reshape)] =
        ((Value.components? source run).getD [Node.rawRun source run]).map follow := by
    rw [Value.components?_map htokens h]
    cases Value.components? source run with
    | none => exact congrArg (fun node => [node]) (h.rawRun htokens run).symm
    | some nodes => rfl
  simp only [preludeNodes, queryList?_map htokens h]
  cases takesQueries name with
  | false => exact hplain
  | true =>
      cases queryList? source run with
      | none => exact hplain
      | some list => rfl

theorem prelude?_map (name : String) (run : List Token) :
    prelude? source' name (run.map reshape) = (prelude? source name run).map follow := by
  simp only [prelude?, Run.trim_map htokens, List.isEmpty_map, preludeNodes_map htokens h]
  split
  · rfl
  · exact congrArg some (h.spanning _ (.atRulePrelude _)).symm

end Tokens

end Media

end Stylesheet
