import Stylesheet.Proofs.Reread.Components
import Stylesheet.Proofs.Token.Cuts

/-!
# The trivia of components

The tokens of components are those of the run they were read from, but for trivia, the shapes of
closers and the names of addresses.
-/

namespace Stylesheet
namespace Value

open Node Token Run

theorem isTrivia_of_mem_written {node : Node} (h : node.isWhiteSpace = true) :
    forall token, token ∈ node.written -> token.isTrivia = true := by
  rcases node with ⟨construct, location⟩
  cases construct <;> cases h
  intro token htoken
  rcases List.mem_singleton.mp htoken with rfl
  rfl

theorem alike_of_single? {token : Token} {construct : Construct Node}
    (h : single? none token = some construct) (htrivia : token.isTrivia = false)
    (hcomma : token.kind ≠ .delim ',') (hcolon : token.kind ≠ .delim ':') :
    exists token', writtenConstruct construct = [token'] ∧ Alike token token' := by
  cases readsSingle_of_single? h with
  | trivia htoken => exact absurd htoken (ne_true_of_eq_false htrivia)
  | @delim c hkind =>
      refine ⟨ofMark (String.singleton c), rfl, Alike.kind ?_⟩
      rcases kind_ofMark_singleton c with ⟨rfl, _⟩ | ⟨rfl, _⟩ | hmark
      · exact absurd hkind hcomma
      · exact absurd hkind hcolon
      · rw [hkind, hmark]
  | _ => exact ⟨_, rfl, Alike.kind ‹token.kind = _›⟩

theorem similar_gap {before space : Option Node} {after : Node} {run other : List Token}
    (hspace : forall piece, piece ∈ space -> piece.isWhiteSpace = true)
    (h : Similar run other) : Similar run (writtenAll (gap before space after) ++ other) := by
  rcases gap_eq before space after with hgap | ⟨piece, rfl, hgap⟩
  · rw [hgap, writtenAll]
    exact h
  · rw [hgap, writtenAll, writtenAll, List.append_nil]
    exact h.trivia_append (isTrivia_of_mem_written (hspace piece rfl))

theorem similar_normalizeAfter {run : List Token} {nodes : List Node} (h : Reads none run nodes)
    (hrun : Seamless run) (before space : Option Node)
    (hspace : forall piece, piece ∈ space -> piece.isWhiteSpace = true) :
    Similar run (writtenAll (normalizeAfter before space nodes)) := by
  induction h generalizing before space with
  | nil => exact Similar.nil
  | @single token rest construct nodes hsingle hrest ih =>
      have hback : Seamless rest := @Seamless.back [token] rest hrun
      cases htrivia : token.isTrivia with
      | true =>
          have hnode : (ofConstruct construct).isWhiteSpace = true :=
            (isWhiteSpace_of_single? hsingle _).trans htrivia
          rw [ofToken_none, normalizeAfter_whiteSpace hnode]
          refine Similar.left htrivia (ih hback before _ ?_)
          intro piece hpiece
          cases space with
          | none =>
              cases hpiece
              exact hnode
          | some space => exact hspace piece hpiece
      | false =>
          have hnode : (ofConstruct construct).isWhiteSpace = false :=
            (isWhiteSpace_of_single? hsingle _).trans htrivia
          rcases alike_of_single? hsingle htrivia (hrun.kind_ne_delim List.mem_cons_self rfl)
            (hrun.kind_ne_delim List.mem_cons_self rfl) with ⟨token', hwritten, halike⟩
          rw [ofToken_none, normalizeAfter_node hnode, writtenAll_append, writtenAll,
            written_ofConstruct, hwritten]
          exact similar_gap hspace (Similar.cons halike (ih hback _ _ (by rintro _ ⟨⟩)))
  | @group opener closer rest content after children nodes hopens hgroup hcontent hafter ihcontent
      ihafter =>
      have hback : Seamless rest := @Seamless.back [opener] rest hrun
      rcases hback.group hgroup with ⟨hcontentrun, hafterrun⟩
      have happend := splitGroup?_append hgroup
      rcases exists_written_group hopens (normalize children) with
        ⟨kind, closing, hwritten, hrenamed, hclosing, _⟩
      have hcloser : Alike closer (ofKind closing) :=
        Alike.closer (Seamless.closer_of_splitGroup? hgroup) (isCloser_written hclosing)
      have hinner := ihcontent hcontentrun none none (by rintro _ ⟨⟩)
      have houter := ihafter hafterrun (some (ofConstruct (group opener.kind (normalize children))))
        none (by rintro _ ⟨⟩)
      have hnode : (ofConstruct (group opener.kind (normalize children))).isWhiteSpace = false :=
        isWhiteSpace_group _ _ none
      rw [spanning_none, normalizeAfter_node hnode, writtenAll_append, writtenAll,
        written_ofConstruct, hwritten, ← happend, List.append_assoc, List.cons_append]
      refine similar_gap hspace (Similar.cons hrenamed.alike (hinner.append ?_))
      exact Similar.cons hcloser houter

theorem similar_of_components? {run : List Token} {nodes : List Node} (hrun : Seamless run)
    (h : components? none run = some nodes) : Similar run (writtenAll nodes) := by
  rcases Option.map_eq_some_iff.mp h with ⟨spaced, hspaced, rfl⟩
  exact similar_normalizeAfter (reads_of_spacedComponents? hspaced) hrun none none (by rintro _ ⟨⟩)

theorem normalize_ne_nil {run : List Token} {nodes : List Node} (hrun : Begins run)
    (h : Reads none run nodes) : normalize nodes ≠ [] := by
  have hcons : forall {node : Node} {rest : List Node}, node.isWhiteSpace = false ->
      normalize (node :: rest) ≠ [] := by
    intro node rest hnode
    rw [normalize, normalizeAfter_node hnode, gap_none]
    exact List.cons_ne_nil _ _
  rcases hrun with ⟨token, rest, rfl, htrivia⟩
  cases h with
  | single hsingle hrest => exact hcons ((isWhiteSpace_of_single? hsingle _).trans htrivia)
  | group hopens hgroup hcontent hafter =>
      rw [spanning_none]
      exact hcons (isWhiteSpace_group _ _ _)

/-- Components are read back from their tokens, which have no trivia at either end. -/
structure IsList (nodes : List Node) : Prop where
  trim_eq : trim (writtenAll nodes) = writtenAll nodes
  closes : Closes 0 (writtenAll nodes)
  uncut : Uncut Sheet.endsPrelude 0 (writtenAll nodes)
  reads : components? none (writtenAll nodes) = some nodes

theorem isList_of_components? {run : List Token} {nodes : List Node}
    (h : components? none run = some nodes) : IsList nodes := by
  rcases Option.map_eq_some_iff.mp h with ⟨spaced, hspaced, rfl⟩
  have hall := isComponent_of_reads (reads_of_spacedComponents? hspaced)
  have hnormal := isComponent_of_mem_normalize hall
  exact ⟨trim_writtenAll hall, closes_writtenAll hnormal, uncut_writtenAll hnormal,
    components?_writtenAll hall⟩

theorem begins_and_ends_of_components? {run : List Token} {nodes : List Node}
    (hrun : Begins run) (h : components? none run = some nodes) :
    Begins (writtenAll nodes) ∧ Ends (writtenAll nodes) := by
  rcases Option.map_eq_some_iff.mp h with ⟨spaced, hspaced, rfl⟩
  have hreads := reads_of_spacedComponents? hspaced
  exact begins_and_ends_writtenAll (isComponent_of_reads hreads) (normalize_ne_nil hrun hreads)

end Value
end Stylesheet
