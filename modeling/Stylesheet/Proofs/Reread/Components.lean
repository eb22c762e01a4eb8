import Stylesheet.Proofs.Node.Written
import Stylesheet.Proofs.Token.Similar
import Stylesheet.Proofs.Token.Stops
import Stylesheet.Proofs.Value.Derivation
import Stylesheet.Sheet

/-!
# Components that are read back

A component is read back from its own tokens, whatever follows them.  Normalised whitespace is
already normal, so that a list of components is read back as a whole.
-/

namespace Stylesheet

open Token Run

namespace Token

/-- The token of an operator of one character: commas and colons have kinds of their own. -/
theorem kind_ofMark_singleton (c : Char) :
    c = ',' ∧ (ofMark (String.singleton c)).kind = .comma ∨
      c = ':' ∧ (ofMark (String.singleton c)).kind = .colon ∨
        (ofMark (String.singleton c)).kind = .delim c := by
  unfold ofMark
  rw [String.toList_singleton]
  split
  · rename_i heq
    cases heq
    exact Or.inl ⟨rfl, rfl⟩
  · rename_i heq
    cases heq
    exact Or.inr (Or.inl ⟨rfl, rfl⟩)
  · rename_i heq
    cases heq
    exact Or.inr (Or.inr rfl)
  · rename_i heq
    cases heq

end Token

namespace Node

@[simp] theorem spanning_none (run : List Token) (construct : Construct Node) :
    spanning none run construct = ofConstruct construct := by
  unfold spanning ofConstruct Location.ofRun
  split <;> rfl

@[simp] theorem ofToken_none (token : Token) (construct : Construct Node) :
    ofToken none token construct = ofConstruct construct :=
  rfl

@[simp] theorem written_ofConstruct (construct : Construct Node) :
    (ofConstruct construct).written = writtenConstruct construct := by
  rw [written_eq]
  rfl

theorem writtenAll_append (front back : List Node) :
    writtenAll (front ++ back) = writtenAll front ++ writtenAll back := by
  rw [writtenAll_eq, writtenAll_eq, writtenAll_eq, List.flatMap_append]

end Node

namespace Value

open Node

/-! ## One component -/

/-- A node that is read back from its tokens. -/
structure IsComponent (node : Node) : Prop where
  reads : forall rest, spacedComponents? none (node.written ++ rest) =
    (spacedComponents? none rest).map (node :: ·)
  closes : Closes 0 node.written
  uncut : Uncut Sheet.endsPrelude 0 node.written
  ends : node.isWhiteSpace = false -> Begins node.written ∧ Ends node.written

theorem exists_written_single {token : Token} {construct : Construct Node}
    (h : single? none token = some construct) :
    exists token', writtenConstruct construct = [token'] ∧ single? none token' = some construct ∧
      isPlain token'.kind = true ∧ Sheet.endsPrelude token'.kind = false := by
  cases readsSingle_of_single? h with
  | @delim c hkind =>
      refine ⟨ofMark (String.singleton c), rfl, ?_⟩
      rcases kind_ofMark_singleton c with ⟨rfl, hmark⟩ | ⟨rfl, hmark⟩ | hmark
      · rw [single?, hmark]
        exact ⟨rfl, rfl, rfl⟩
      · rw [single?, hmark]
        exact ⟨rfl, rfl, rfl⟩
      · rw [single?, hmark]
        exact ⟨rfl, rfl, rfl⟩
  | _ => exact ⟨_, rfl, rfl, rfl, rfl⟩

theorem isComponent_single {token : Token} {construct : Construct Node}
    (h : single? none token = some construct) : IsComponent (ofConstruct construct) := by
  rcases exists_written_single h with ⟨token', hwritten, hsingle, hplain, hstops⟩
  constructor
  · intro rest
    rw [written_ofConstruct, hwritten, List.singleton_append, spacedComponents?_single hsingle]
    rfl
  · rw [written_ofConstruct, hwritten]
    exact closes_token hplain
  · rw [written_ofConstruct, hwritten]
    exact uncut_token hplain hstops
  · intro hspace
    rw [written_ofConstruct, hwritten]
    have hfirst : token'.isTrivia = false :=
      (isWhiteSpace_of_single? hsingle none).symm.trans hspace
    exact ⟨begins_cons hfirst [], ends_singleton hfirst⟩

/-! ## Lists of components -/

section Lists

variable {nodes : List Node}

theorem spacedComponents?_writtenAll (h : forall node, node ∈ nodes -> IsComponent node) :
    spacedComponents? none (writtenAll nodes) = some nodes := by
  induction nodes with
  | nil => rw [writtenAll, spacedComponents?]
  | cons node rest ih =>
      rw [writtenAll, (h node List.mem_cons_self).reads,
        ih fun other hother => h other (List.mem_cons_of_mem node hother)]
      rfl

theorem closes_writtenAll (h : forall node, node ∈ nodes -> IsComponent node) :
    Closes 0 (writtenAll nodes) := by
  induction nodes with
  | nil =>
      rw [writtenAll]
      exact closes_nil
  | cons node rest ih =>
      rw [writtenAll]
      have hnode := (h node List.mem_cons_self).closes
      exact hnode.append (ih fun other hother => h other (List.mem_cons_of_mem node hother))

theorem uncut_writtenAll (h : forall node, node ∈ nodes -> IsComponent node) :
    Uncut Sheet.endsPrelude 0 (writtenAll nodes) := by
  induction nodes with
  | nil => exact trivial
  | cons node rest ih =>
      have hnode := h node List.mem_cons_self
      rw [writtenAll]
      refine uncut_append.mpr ⟨hnode.uncut, ?_⟩
      rw [hnode.closes.depthBehind]
      exact ih fun other hother => h other (List.mem_cons_of_mem node hother)

theorem isComponent_of_mem_normalize (h : forall node, node ∈ nodes -> IsComponent node) :
    forall node, node ∈ normalize nodes -> IsComponent node :=
  fun node hnode => h node ((normalize_sublist nodes).subset hnode)

/-- The tokens of normal components have no whitespace at either end. -/
theorem begins_and_ends_writtenAll (h : forall node, node ∈ nodes -> IsComponent node)
    (hne : normalize nodes ≠ []) :
    Begins (writtenAll (normalize nodes)) ∧ Ends (writtenAll (normalize nodes)) := by
  have hall := isComponent_of_mem_normalize h
  unfold normalize at hne hall ⊢
  constructor
  · rcases normalizeAfter_begins none nodes with hnil | ⟨first, back, heq, hfirst⟩
    · exact absurd hnil hne
    · rw [heq] at hall ⊢
      rw [writtenAll]
      exact ((hall first List.mem_cons_self).ends hfirst).1.append _
  · rcases normalizeAfter_ends none none nodes with hnil | ⟨front, last, heq, hlast⟩
    · exact absurd hnil hne
    · rw [heq] at hall ⊢
      rw [writtenAll_append, writtenAll, writtenAll, List.append_nil]
      exact ((hall last (List.mem_append_right _ List.mem_cons_self)).ends hlast).2.append _

theorem trim_writtenAll (h : forall node, node ∈ nodes -> IsComponent node) :
    trim (writtenAll (normalize nodes)) = writtenAll (normalize nodes) := by
  by_cases hnil : normalize nodes = []
  · rw [hnil, writtenAll]
    rfl
  · rcases begins_and_ends_writtenAll h hnil with ⟨hbegins, hends⟩
    exact trim_eq_self hbegins hends

theorem components?_writtenAll (h : forall node, node ∈ nodes -> IsComponent node) :
    components? none (writtenAll (normalize nodes)) = some (normalize nodes) := by
  unfold components?
  rw [spacedComponents?_writtenAll (isComponent_of_mem_normalize h), Option.map_some,
    normalize_normalize]

end Lists

/-! ## Groups -/

/-- The opener of a group is written as its own kind, but for the name of an address. -/
inductive IsWrittenAs (kind : TokenKind) : TokenKind -> Prop
  | same : IsWrittenAs kind kind
  | address {name : String} (hkind : kind = .function name) (hname : sameWord name "url" = true) :
      IsWrittenAs kind (.function "url")

theorem IsWrittenAs.opensGroup {opener : Token} {kind : TokenKind}
    (h : IsWrittenAs opener.kind kind) (hopens : opensGroup opener = true) :
    opensGroup (ofKind kind) = true := by
  cases h with
  | same => exact hopens
  | address => rfl

theorem IsWrittenAs.alike {opener : Token} {kind : TokenKind} (h : IsWrittenAs opener.kind kind) :
    Alike opener (ofKind kind) := by
  cases h with
  | same => exact Alike.kind rfl
  | address hkind => exact Alike.function hkind rfl

theorem isCloser_written {closer : TokenKind} (h : closer = .rightParen ∨ closer = .rightBracket) :
    (ofKind closer).isCloser = true := by
  rcases h with rfl | rfl <;> rfl

theorem exists_written_group {opener : Token} (hopens : opensGroup opener = true)
    (nodes : List Node) :
    exists kind closer, writtenConstruct (group opener.kind nodes) =
        ofKind kind :: writtenAll nodes ++ [ofKind closer] ∧ IsWrittenAs opener.kind kind ∧
      (closer = .rightParen ∨ closer = .rightBracket) ∧
        group kind nodes = group opener.kind nodes := by
  unfold opensGroup at hopens
  split at hopens
  · rename_i name hkind
    rw [hkind]
    unfold group
    simp only
    split
    · rename_i address hname hlone
      rcases loneString?_eq_some_iff.mp hlone with ⟨rfl, htype⟩
      refine ⟨.function "url", .rightParen, ?_, IsWrittenAs.address rfl hname, Or.inl rfl, ?_⟩
      · rw [writtenConstruct_url, writtenAll, writtenAll, List.append_nil]
        intro content hcontent
        rw [Node.type, hcontent] at htype
        cases htype
      · have hurl : sameWord "url" "url" = true := beq_self_eq_true _
        simp only [hlone, hurl]
    · refine ⟨.function name, .rightParen, rfl, IsWrittenAs.same, Or.inl rfl, ?_⟩
      simp only
  · rename_i hkind
    rw [hkind]
    exact ⟨.leftParen, .rightParen, rfl, IsWrittenAs.same, Or.inl rfl, rfl⟩
  · rename_i hkind
    rw [hkind]
    exact ⟨.leftBracket, .rightBracket, rfl, IsWrittenAs.same, Or.inr rfl, rfl⟩
  · cases hopens

theorem isOpener_of_opensGroup {token : Token} (h : opensGroup token = true) :
    token.isOpener = true ∧ Sheet.endsPrelude token.kind = false ∧ token.isTrivia = false := by
  unfold opensGroup at h
  unfold Token.isOpener Token.isTrivia
  split at h
  all_goals first | simp only [‹token.kind = _›] | cases h
  all_goals exact ⟨rfl, rfl, rfl⟩

theorem isTrivia_of_isCloser {token : Token} (h : token.isCloser = true) :
    token.isTrivia = false := by
  unfold Token.isCloser at h
  unfold Token.isTrivia
  cases hkind : token.kind <;> rw [hkind] at h <;> first | rfl | cases h

theorem isComponent_group {opener : Token} {children : List Node}
    (hopens : opensGroup opener = true)
    (hchildren : forall node, node ∈ children -> IsComponent node) :
    IsComponent (ofConstruct (group opener.kind (normalize children))) := by
  rcases exists_written_group hopens (normalize children) with
    ⟨kind, closing, hwritten, hrenamed, hclosing, hgroup⟩
  have hopens' := hrenamed.opensGroup hopens
  have hcloser' := isCloser_written hclosing
  have hcontent := isComponent_of_mem_normalize hchildren
  have hcloses := closes_writtenAll hcontent
  rcases isOpener_of_opensGroup hopens' with ⟨hopener', hstops, htrivia⟩
  constructor
  · intro rest
    rw [written_ofConstruct, hwritten, List.append_assoc, List.singleton_append, List.cons_append,
      spacedComponents?_group hopens', hcloses.splitGroup? hcloser', Option.bind_some,
      spacedComponents?_writtenAll hcontent, Option.bind_some, spanning_none, normalize_normalize,
      show (ofKind kind).kind = kind from rfl, hgroup]
  · rw [written_ofConstruct, hwritten]
    exact hcloses.group hopener' hcloser'
  · rw [written_ofConstruct, hwritten]
    exact uncut_group hcloses hopener' hcloser' hstops
  · intro _
    rw [written_ofConstruct, hwritten]
    refine ⟨begins_cons htrivia _, ?_⟩
    exact (ends_singleton (isTrivia_of_isCloser hcloser')).append _

theorem isComponent_of_reads {run : List Token} {nodes : List Node} (h : Reads none run nodes) :
    forall node, node ∈ nodes -> IsComponent node := by
  induction h with
  | nil =>
      intro node hnode
      cases hnode
  | single hsingle hrest ih =>
      intro node hnode
      rcases List.mem_cons.mp hnode with rfl | hnode
      · exact isComponent_single hsingle
      · exact ih node hnode
  | group hopens hgroup hcontent hafter ihcontent ihafter =>
      intro node hnode
      rcases List.mem_cons.mp hnode with rfl | hnode
      · rw [spanning_none]
        exact isComponent_group hopens ihcontent
      · exact ihafter node hnode

end Value
end Stylesheet
