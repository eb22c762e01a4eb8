import Stylesheet.Proofs.Lists
import Stylesheet.Proofs.Media.Derivation
import Stylesheet.Proofs.Node.Traced
import Stylesheet.Proofs.Value.Derivation

/-!
# Components and media queries hold no tracked nodes

Values and the preludes of at-rules are made of words, numbers and groups, and at-rules,
selectors and declarations are none of these.
-/

namespace Stylesheet

variable {sourceName : String} {source : SourceName}

theorem Traced.raw (run : List Token) : Traced sourceName [] [Node.rawRun source run] :=
  Traced.leaf rfl rfl

namespace Value

theorem traced_single {token : Token} {construct : Construct Node}
    (h : single? source token = some construct) :
    Traced sourceName [] [Node.ofToken source token construct] := by
  cases readsSingle_of_single? h with
  | address => exact Traced.untracked rfl rfl (Traced.leaf rfl rfl)
  | _ => exact Traced.leaf rfl rfl

theorem traced_group {run : List Token} {opener : TokenKind} {children : List Node}
    (h : Traced sourceName [] children) :
    Traced sourceName [] [Node.spanning source run (group opener children)] := by
  unfold group
  split
  · split
    · rename_i address hstring
      rw [(loneString?_eq_some_iff.mp hstring).left] at h
      exact Traced.untracked rfl rfl h
    · exact Traced.untracked rfl rfl h
  · exact Traced.untracked rfl rfl h
  · exact Traced.untracked rfl rfl h

theorem Reads.traced {run : List Token} {nodes : List Node} (h : Reads source run nodes) :
    Traced sourceName [] nodes := by
  induction h with
  | nil => exact Traced.nil sourceName []
  | single hsingle hrest ih => exact (traced_single hsingle).cons ih
  | group hopens hgroup hcontent hafter ihcontent ihafter =>
      exact (traced_group (ihcontent.sublist (normalize_sublist _))).cons ihafter

theorem traced_components? {run : List Token} {nodes : List Node}
    (h : components? source run = some nodes) : Traced sourceName [] nodes := by
  rcases Option.map_eq_some_iff.mp h with ⟨spaced, hspaced, rfl⟩
  exact (reads_of_spacedComponents? hspaced).traced.sublist (normalize_sublist spaced)

theorem traced_ofRun (run : List Token) : Traced sourceName [] [ofRun source run] := by
  unfold ofRun
  split
  · rename_i children hchildren
    exact Traced.untracked rfl rfl (traced_components? hchildren)
  · exact Traced.raw _

end Value

namespace Media

theorem traced_feature? {content run : List Token} {construct : Construct Node}
    (h : feature? source content = some construct) :
    Traced sourceName [] [Node.spanning source run construct] := by
  cases feature?_eq_some_iff.mp h with
  | named => exact Traced.leaf rfl rfl
  | valued _ _ _ _ hvalue =>
      refine Traced.untracked rfl rfl ?_
      rcases isFeatureValue_of_featureValue? hvalue with ⟨kinds, -, hkinds⟩
      cases hkinds <;> exact Traced.leaf rfl rfl

theorem traced_addSpace {space : Node} {parts : List Node} (hspace : Traced sourceName [] [space])
    (h : Traced sourceName [] parts) : Traced sourceName [] (addSpace space parts) := by
  unfold addSpace
  split
  · exact h
  · split
    · exact h
    · exact hspace.cons h

theorem dropSpace_sublist (parts : List Node) : (dropSpace parts).Sublist parts := by
  unfold dropSpace
  split
  · exact List.Sublist.refl _
  · split
    · exact List.sublist_cons_self _ _
    · exact List.Sublist.refl _

theorem Reads.traced {parts nodes : List Node} {run : List Token}
    (h : Reads source parts run nodes) (hparts : Traced sourceName [] parts) :
    Traced sourceName [] nodes := by
  induction h with
  | done parts => exact (hparts.sublist (dropSpace_sublist parts)).reverse
  | trivia htrivia hrest ih => exact ih (traced_addSpace (Traced.leaf rfl rfl) hparts)
  | word hkind hrest ih => exact ih ((Traced.leaf rfl rfl).cons hparts)
  | feature hkind hgroup hfeature hrest ih => exact ih ((traced_feature? hfeature).cons hparts)

theorem traced_query? {run : List Token} {node : Node} (h : query? source run = some node) :
    Traced sourceName [] [node] := by
  rcases reads_of_query? h with ⟨-, parts, hparts, rfl⟩
  exact Traced.untracked rfl rfl (hparts.traced (Traced.nil sourceName []))

theorem traced_queryList? {run : List Token} {node : Node}
    (h : queryList? source run = some node) : Traced sourceName [] [node] := by
  rcases Option.map_eq_some_iff.mp h with ⟨queries, hqueries, rfl⟩
  refine Traced.untracked rfl rfl ?_
  show Traced sourceName [] queries
  refine Traced.of_forall ?_
  intro query hquery
  rcases exists_of_mem_mapM hqueries hquery with ⟨part, _, hpart⟩
  exact traced_query? hpart

theorem traced_prelude? {name : String} {run : List Token} {node : Node}
    (h : prelude? source name run = some node) : Traced sourceName [] [node] := by
  simp only [prelude?] at h
  split at h
  · cases h
  · cases h
    refine Traced.untracked rfl rfl ?_
    show Traced sourceName [] (preludeNodes source name (Run.trim run))
    simp only [preludeNodes]
    split
    · rename_i list hlist
      split at hlist
      · exact traced_queryList? hlist
      · cases hlist
    · cases hcomponents : Value.components? source (Run.trim run) with
      | none => exact Traced.raw _
      | some nodes => exact Value.traced_components? hcomponents

end Media
end Stylesheet
