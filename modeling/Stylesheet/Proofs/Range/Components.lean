import Stylesheet.Proofs.Origin.Components
import Stylesheet.Proofs.Range.Placed
import Stylesheet.Proofs.Token.Brackets
import Stylesheet.Proofs.Token.Cuts
import Stylesheet.Proofs.Token.Parts

/-!
# Where components and media queries are placed

The components of a run are placed in it, group within group, and so are the words and features
of a media query and the queries between the commas of a prelude.
-/

namespace Stylesheet

open Run

variable {source : SourceName}

namespace Run

/-- What is left of a run with one token that is not trivia is this token. -/
theorem trim_eq_singleton {run : List Token} {token : Token}
    (h : significant (trim run) = [token]) : trim run = [token] := by
  have hne : trim run ≠ [] := by
    intro hnil
    rw [hnil] at h
    cases h
  rcases begins_and_ends_of_trim_ne_nil hne with
    ⟨⟨first, rest, hfirst, hbegins⟩, front, last, hlast, hends⟩
  cases front with
  | nil =>
      rw [hlast] at h ⊢
      rw [significant, List.nil_append, List.filter_cons_of_pos (by simp [hends])] at h
      exact h
  | cons other front =>
      rw [hlast, List.cons_append, List.cons.injEq] at hfirst
      rw [hlast, hfirst.left, significant] at h
      simp [hbegins, hends] at h

end Run

namespace Placed

/-- Nodes that are placed in the parts of a run between separators. -/
theorem of_splitTopLevel {separates : TokenKind -> Bool} {depth : Nat} {parent : NodeType}
    {run : List Token} {parts : List (List Token)} {nodes : List Node}
    (hall : List.Forall₂ (fun part node => Placed source parent part [node]) parts nodes)
    (hparts : splitTopLevel separates depth run = parts) : Placed source parent run nodes := by
  induction hall generalizing depth run with
  | nil => exact nil parent run
  | @cons part node parts nodes hfirst hrest ih =>
      rcases splitTopLevel_eq_cons hparts with
        ⟨_, ⟨rfl, rfl⟩ | ⟨mark, rest, rfl, _, _, hmore⟩⟩
      · cases hrest
        exact hfirst
      · exact hfirst.append ((ih hmore.symm).skip [mark])

end Placed

/-! ## Components -/

namespace Value

theorem over_single {token : Token} {construct : Construct Node} (hspelled : token.IsSpelled)
    (h : single? source token = some construct) :
    (Node.ofToken source token construct).Over source .value [token] := by
  cases readsSingle_of_single? h with
  | trivia => exact Node.Over.ofToken (Construct.fits_of_isFree rfl) rfl
  | @address content =>
      apply Node.Over.free (List.cons_ne_nil _ _) rfl
      have hcontent : (Construct.raw content).Fits .url [token] := fun hurl => absurd rfl hurl
      exact (Node.Over.ofToken hcontent rfl).placed
  | _ =>
      exact Node.Over.ofSpelling hspelled (by rw [‹token.kind = _›]; rfl) rfl
        (by rw [Node.renderConstruct])

theorem over_group {opener closer : Token} {content : List Token} {children : List Node}
    (h : Placed source .value content children) :
    (Node.spanning source (opener :: content ++ [closer])
      (group opener.kind (normalize children))).Over source .value
        (opener :: content ++ [closer]) := by
  have hchildren : Placed source .value (opener :: content ++ [closer]) (normalize children) :=
    (h.sublist (normalize_sublist children)).widen [opener] [closer]
  have hne : opener :: content ++ [closer] ≠ [] := List.cons_ne_nil _ _
  unfold group
  split
  · split
    · rename_i address _ hstring
      rw [(loneString?_eq_some_iff.mp hstring).left] at hchildren
      exact Node.Over.free hne rfl (hchildren.under .url)
    · exact Node.Over.free hne rfl (hchildren.under .function)
  · exact Node.Over.free hne rfl (hchildren.under .brackets)
  · exact Node.Over.free hne rfl (hchildren.under .parentheses)

theorem Reads.placed {run : List Token} {nodes : List Node} (h : Reads source run nodes)
    (hspelled : Run.IsSpelled run) : Placed source .value run nodes := by
  induction h with
  | nil => exact Placed.nil _ _
  | single hsingle hrest ih =>
      exact (over_single (hspelled _ List.mem_cons_self) hsingle).cons
        (ih (hspelled.sublist (List.sublist_cons_self _ _)))
  | @group opener closer rest content after children nodes _ hgroup _ _ ihcontent ihafter =>
      have hrest : Run.IsSpelled rest := hspelled.sublist (List.sublist_cons_self _ _)
      have hcontent := ihcontent (hrest.sublist (content_sublist hgroup))
      have hplaced := (@over_group source opener closer _ _ hcontent).cons
        (ihafter (hrest.sublist (rest_sublist hgroup)))
      rw [← splitGroup?_append hgroup]
      simpa only [List.append_assoc, List.cons_append, List.nil_append] using hplaced

/-- A run that begins with no trivia is read as components that begin with no whitespace. -/
theorem Reads.begins {token : Token} {rest : List Token} {nodes : List Node}
    (h : Reads source (token :: rest) nodes) (htrivia : token.isTrivia = false) :
    exists first later, nodes = first :: later ∧ first.isWhiteSpace = false := by
  cases h with
  | single hsingle hrest =>
      exact ⟨_, _, rfl, (isWhiteSpace_of_single? hsingle _).trans htrivia⟩
  | group hopens hgroup hcontent hafter => exact ⟨_, _, rfl, isWhiteSpace_group _ _ _⟩

theorem placed_components? {run : List Token} {nodes : List Node} (hspelled : Run.IsSpelled run)
    (h : components? source run = some nodes) : Placed source .value run nodes := by
  rcases Option.map_eq_some_iff.mp h with ⟨spaced, hspaced, rfl⟩
  exact ((reads_of_spacedComponents? hspaced).placed hspelled).sublist (normalize_sublist spaced)

/-- Only an empty run has no components. -/
theorem eq_nil_of_components? {run : List Token} (h : components? source (trim run) = some []) :
    trim run = [] := by
  rcases Option.map_eq_some_iff.mp h with ⟨spaced, hspaced, hnormal⟩
  cases htrim : trim run with
  | nil => rfl
  | cons token rest =>
      rw [htrim] at hspaced
      rcases (reads_of_spacedComponents? hspaced).begins (not_trivia_of_trim_eq_cons htrim) with
        ⟨first, later, rfl, hfirst⟩
      rw [normalize, normalizeAfter_node hfirst, gap_none] at hnormal
      cases hnormal

theorem over_ofRun {run : List Token} (hspelled : Run.IsSpelled run) :
    (ofRun source run).Over source .value (trim run) := by
  unfold ofRun
  split
  · rename_i children hchildren
    constructor
    · rfl
    · rintro rfl
      exact eq_nil_of_components? hchildren
    · intro hnil
      have hempty : components? source [] = some [] := by
        rw [components?, spacedComponents?]
        rfl
      rw [hnil, hempty] at hchildren
      cases hchildren
      exact Or.inr rfl
    · exact placed_components? (hspelled.sublist (trim_sublist run)) hchildren
  · exact Node.Over.raw source .value (trim run)

end Value

/-! ## Media queries -/

namespace Media

theorem over_featureValue? {run : List Token} {construct : Construct Node}
    (hspelled : Run.IsSpelled run) (h : featureValue? (trim run) = some construct) :
    (Node.spanning source (trim run) construct).Over source .value (trim run) := by
  have hne : trim run ≠ [] := by
    intro hnil
    rw [hnil] at h
    cases h
  have hleaf : forall {kind : TokenKind} {construct : Construct Node} {spelling : String},
      (significant (trim run)).map Token.kind = [kind] -> kind.spelling? = some spelling ->
        construct.type.isLeaf = true -> Node.renderConstruct construct = spelling ->
          (Node.spanning source (trim run) construct).Over source .value (trim run) := by
    intro kind construct spelling hkinds hkind hleaf hrender
    rcases List.map_eq_singleton_iff.mp hkinds with ⟨token, htoken, rfl⟩
    have hrun := trim_eq_singleton htoken
    have hmem : token ∈ run := (trim_sublist run).subset (by rw [hrun]; exact List.mem_cons_self)
    rw [hrun]
    exact Node.Over.ofSpelling (hspelled token hmem) hkind hleaf hrender
  rcases isFeatureValue_of_featureValue? h with ⟨kinds, hkinds, hvalue⟩
  cases hvalue with
  | ratio => exact Node.Over.leaf hne (Construct.fits_of_isFree rfl) rfl
  | _ => exact hleaf hkinds rfl rfl (by rw [Node.renderConstruct])

theorem over_feature? {opener closer : Token} {content : List Token} {construct : Construct Node}
    (hspelled : Run.IsSpelled content) (h : feature? source content = some construct) :
    (Node.spanning source (opener :: content ++ [closer]) construct).Over source .value
      (opener :: content ++ [closer]) := by
  have hne : opener :: content ++ [closer] ≠ [] := List.cons_ne_nil _ _
  cases feature?_eq_some_iff.mp h with
  | named => exact Node.Over.leaf hne (Construct.fits_of_isFree rfl) rfl
  | @valued word colon name rest behind value hcontent hword hrest hcolon hvalue =>
      have hinfix : colon :: behind <:+: content := by
        rw [← hrest]
        apply (isInfix_trim rest).trans
        apply (List.suffix_cons _ rest).isInfix.trans
        rw [← hcontent]
        exact isInfix_trim content
      have hbehind : behind <:+: content := (List.suffix_cons colon behind).isInfix.trans hinfix
      have hover := @over_featureValue? source _ _ (hspelled.sublist hbehind.sublist) hvalue
      apply Node.Over.free hne rfl
      exact ((hover.under .mediaFeature).placed.mono
        ((isInfix_trim behind).trans hbehind)).widen [opener] [closer]

theorem addSpace_sublist (space : Node) (parts : List Node) :
    (addSpace space parts).Sublist (space :: parts) := by
  unfold addSpace
  split
  · exact List.nil_sublist _
  · split
    · exact List.sublist_cons_self _ _
    · exact List.Sublist.refl _

/-- What is read of a query is placed behind what has been read before. -/
theorem Reads.placed {before run : List Token} {parts nodes : List Node}
    (h : Reads source parts run nodes) (hspelled : Run.IsSpelled run)
    (hparts : Placed source .value before parts.reverse) :
    Placed source .value (before ++ run) nodes := by
  have hnext : forall {before inner : List Token} {parts : List Node} {node : Node},
      Placed source .value before parts.reverse -> node.Over source .value inner ->
        Placed source .value (before ++ inner) (node :: parts).reverse := by
    intro before inner parts node hparts hnode
    rw [List.reverse_cons]
    exact hparts.append hnode.placed
  induction h generalizing before with
  | done parts =>
      rw [List.append_nil]
      exact hparts.sublist (dropSpace_sublist parts).reverse
  | @trivia parts nodes token rest htrivia hrest ih =>
      rw [List.append_cons]
      apply ih (hspelled.sublist (List.sublist_cons_self _ _))
      have hspace : (Construct.whiteSpace " " : Construct Node).Fits .value [token] :=
        Construct.fits_of_isFree rfl
      exact (hnext hparts (Node.Over.ofToken hspace rfl)).sublist
        (addSpace_sublist _ _).reverse
  | @word parts nodes token name rest hkind hrest ih =>
      rw [List.append_cons]
      apply ih (hspelled.sublist (List.sublist_cons_self _ _))
      apply hnext hparts
      exact Node.Over.ofSpelling (hspelled token List.mem_cons_self) (by rw [hkind]; rfl) rfl
        (by rw [Node.renderConstruct])
  | @feature parts nodes token closer rest content after construct hkind hgroup hfeature hrest ih =>
      have hbehind : Run.IsSpelled rest := hspelled.sublist (List.sublist_cons_self _ _)
      have hplaced := ih (hbehind.sublist (rest_sublist hgroup))
        (hnext hparts (over_feature? (hbehind.sublist (content_sublist hgroup)) hfeature))
      rw [← splitGroup?_append hgroup]
      simpa only [List.append_assoc, List.cons_append, List.nil_append] using hplaced

theorem over_query? {run : List Token} {node : Node} (hspelled : Run.IsSpelled run)
    (h : query? source run = some node) : node.Over source .value run := by
  rcases reads_of_query? h with ⟨hne, parts, hparts, rfl⟩
  apply Node.Over.free hne rfl
  exact (hparts.placed hspelled (Placed.nil _ [])).under .mediaQuery

theorem over_queryList? {run : List Token} {node : Node} (hne : run ≠ [])
    (hspelled : Run.IsSpelled run) (h : queryList? source run = some node) :
    node.Over source .value run := by
  rcases Option.map_eq_some_iff.mp h with ⟨queries, hqueries, rfl⟩
  have hparts : forall part, part ∈ splitTopLevel (· == .comma) 0 run -> Run.IsSpelled part := by
    intro part hpart
    exact hspelled.sublist ((List.sublist_flatten_of_mem hpart).trans
      (flatten_splitTopLevel_sublist _ 0 run))
  have hall : List.Forall₂ (fun part query => Placed source .value part [query])
      (splitTopLevel (· == .comma) 0 run) queries := by
    apply ((List.forall₂_and_left _ _).mpr ⟨hparts, mapM_eq_some_iff.mp hqueries⟩).imp
    intro part query hpart
    exact (over_query? (hpart.left.sublist (trim_sublist part)) hpart.right).placed.mono
      (isInfix_trim part)
  exact Node.Over.free hne rfl ((Placed.of_splitTopLevel hall rfl).under _)

/-- The prelude of an at-rule covers its run without the trivia at its ends. -/
theorem over_prelude? {name : String} {run : List Token} {node : Node}
    (hspelled : Run.IsSpelled run) (h : prelude? source name run = some node) :
    node.Over source .value (trim run) := by
  have htrim : Run.IsSpelled (trim run) := hspelled.sublist (trim_sublist run)
  simp only [prelude?] at h
  split at h
  · cases h
  · rename_i hne
    rw [List.isEmpty_iff] at hne
    cases h
    apply Node.Over.free hne rfl
    apply Placed.under
    show Placed source .value (trim run) (preludeNodes source name (trim run))
    simp only [preludeNodes]
    split
    · rename_i list hlist
      split at hlist
      · exact (over_queryList? hne htrim hlist).placed
      · cases hlist
    · cases hcomponents : Value.components? source (trim run) with
      | none => exact (Node.Over.raw source .value (trim run)).placed
      | some nodes => exact Value.placed_components? htrim hcomponents

end Media
end Stylesheet
