import Stylesheet.Proofs.Canonical.Components
import Stylesheet.Proofs.Reread.Commas
import Stylesheet.Proofs.Selector.Derivation

/-!
# Canonical selectors

A compound is read back as its simple selectors, and the token between two compounds as the
combinator that it was written for.
-/

namespace Stylesheet
namespace Canonical

open Character Node Token Run Selector

/-! ## The tokens of selectors -/

theorem Word.ne_asterisk (word : Word) : word.text ≠ "*" := by
  intro heq
  have h := word.isWord
  rw [heq] at h
  cases h

/-- The token of a type selector. -/
def TypeName.token : TypeName -> Token
  | any => ofMark "*"
  | .word name => ofKind (.ident name.text)

theorem TypeName.written_node (type : TypeName) : type.node.written = [type.token] := by
  cases type with
  | any => rfl
  | word name =>
      change [if name.text = "*" then _ else _] = _
      rw [if_neg name.ne_asterisk]
      rfl

/-- The token of a combinator. -/
def Joint.token : Joint -> Token
  | descendant => blank
  | child => ofMark ">"
  | next => ofMark "+"
  | later => ofMark "~"

theorem Joint.written_node (joint : Joint) : joint.node.written = [joint.token] := by
  cases joint <;> rfl

/-! ## Reading back from tokens -/

section Reading

variable {earlier : List Node} {gap : Option Token} {rest : List Token}

theorem Mark.parts? (mark : Mark) :
    Selector.parts? none earlier gap (mark.node.written ++ rest) =
      Selector.parts? none (mark.node :: addDescendant none gap earlier) none rest := by
  cases mark with
  | ofClass name =>
      have hsimple : simple? none (ofMark ".") (ofKind (.ident name.text) :: rest) =
          some ⟨(Mark.ofClass name).node, rest⟩ := rfl
      exact parts?_simple hsimple
  | ofId name =>
      have hsimple : simple? none (ofKind (.hash name.text)) rest =
          some ⟨(Mark.ofId name).node, rest⟩ := rfl
      exact parts?_simple hsimple

theorem TypeName.parts? (type : TypeName) (hbar : startsBar rest = false) :
    Selector.parts? none earlier gap (type.node.written ++ rest) =
      Selector.parts? none (type.node :: addDescendant none gap earlier) none rest := by
  have hsimple : simple? none type.token rest = some ⟨type.node, rest⟩ := by
    cases type with
    | any =>
        change type? none _ "*" rest = _
        rw [type?, hbar]
        rfl
    | word name =>
        change type? none _ name.text rest = _
        rw [type?, hbar]
        rfl
  rw [type.written_node, List.singleton_append]
  exact parts?_simple hsimple

theorem parts?_marks (marks : List Mark) (earlier : List Node) :
    Selector.parts? none earlier none (writtenAll (marks.map Mark.node) ++ rest) =
      Selector.parts? none ((marks.map Mark.node).reverse ++ earlier) none rest := by
  induction marks generalizing earlier with
  | nil => rfl
  | cons mark marks ih =>
      rw [List.map_cons, writtenAll, List.append_assoc, mark.parts?, addDescendant, ih,
        List.reverse_cons, List.append_assoc]
      rfl

theorem startsBar_marks (marks : List Mark) (hbar : startsBar rest = false) :
    startsBar (writtenAll (marks.map Mark.node) ++ rest) = false := by
  cases marks with
  | nil => exact hbar
  | cons mark marks => cases mark <;> rfl

/-- A compound is read behind what was read, and behind a descendant combinator if one waits. -/
theorem Compound.parts? (compound : Compound) (hbar : startsBar rest = false) :
    Selector.parts? none earlier gap (writtenAll compound.nodes ++ rest) =
      Selector.parts? none (compound.nodes.reverse ++ addDescendant none gap earlier) none
        rest := by
  cases compound with
  | typed type marks =>
      rw [Compound.nodes, writtenAll, List.append_assoc,
        type.parts? (startsBar_marks marks hbar), parts?_marks, List.reverse_cons,
        List.append_assoc]
      rfl
  | marked first marks =>
      rw [Compound.nodes, writtenAll, List.append_assoc, first.parts?, parts?_marks,
        List.reverse_cons, List.append_assoc]
      rfl

theorem Compound.exists_last (compound : Compound) :
    exists front last, compound.nodes = front ++ [last] ∧ last.isCombinator = false ∧
      Ends last.written := by
  have hmark : forall mark : Mark, mark.node.isCombinator = false ∧ Ends mark.node.written := by
    intro mark
    cases mark with
    | ofClass name => exact ⟨rfl, (ends_singleton rfl).cons (ofMark ".")⟩
    | ofId name => exact ⟨rfl, ends_singleton rfl⟩
  have hmarks : forall (first : Node) (marks : List Mark), first.isCombinator = false ->
      Ends first.written -> exists front last, first :: marks.map Mark.node = front ++ [last] ∧
        last.isCombinator = false ∧ Ends last.written := by
    intro first marks hfirst hends
    rcases List.eq_nil_or_concat marks with rfl | ⟨front, last, rfl⟩
    · exact ⟨[], first, rfl, hfirst, hends⟩
    · refine ⟨first :: front.map Mark.node, last.node, ?_, hmark last⟩
      rw [List.concat_eq_append, List.map_append]
      rfl
  cases compound with
  | typed type marks =>
      refine hmarks type.node marks (by cases type <;> rfl) ?_
      rw [type.written_node]
      exact ends_singleton (by cases type <;> rfl)
  | marked first marks => exact hmarks first.node marks (hmark first).left (hmark first).right

theorem Compound.endsSimple (compound : Compound) (earlier : List Node) :
    Selector.endsSimple (compound.nodes.reverse ++ earlier) = true ∧
      endsCombinator (compound.nodes.reverse ++ earlier) = false := by
  rcases compound.exists_last with ⟨front, last, hnodes, hlast, -⟩
  rw [hnodes, List.reverse_append]
  change (!last.isCombinator) = true ∧ last.isCombinator = false
  rw [hlast]
  exact ⟨rfl, rfl⟩

/-- A combinator and the compound behind it are read behind a compound. -/
theorem parts?_joined (joined : Joint × Compound) (hsimple : endsSimple earlier = true)
    (hcombinator : endsCombinator earlier = false) (hbar : startsBar rest = false) :
    Selector.parts? none earlier none (writtenAll (joinedNodes joined) ++ rest) =
      Selector.parts? none ((joinedNodes joined).reverse ++ earlier) none rest := by
  rcases joined with ⟨joint, compound⟩
  rw [joinedNodes, writtenAll, joint.written_node, List.append_assoc, List.singleton_append,
    List.reverse_cons, List.append_assoc]
  cases joint with
  | descendant =>
      rw [parts?_whitespace rfl, hsimple, if_pos rfl, compound.parts? hbar]
      rfl
  | child =>
      rw [parts?_combinator rfl, hcombinator, if_neg Bool.false_ne_true, compound.parts? hbar]
      rfl
  | next =>
      rw [parts?_combinator rfl, hcombinator, if_neg Bool.false_ne_true, compound.parts? hbar]
      rfl
  | later =>
      rw [parts?_combinator rfl, hcombinator, if_neg Bool.false_ne_true, compound.parts? hbar]
      rfl

theorem startsBar_joined (joins : List (Joint × Compound)) :
    startsBar (writtenAll (joins.flatMap joinedNodes)) = false := by
  cases joins with
  | nil => rfl
  | cons joined joins =>
      rcases joined with ⟨joint, compound⟩
      rw [List.flatMap_cons, joinedNodes, List.cons_append, writtenAll, joint.written_node]
      cases joint <;> rfl

theorem parts?_joins (joins : List (Joint × Compound)) (hsimple : endsSimple earlier = true)
    (hcombinator : endsCombinator earlier = false) :
    Selector.parts? none earlier none (writtenAll (joins.flatMap joinedNodes)) =
      some (earlier.reverse ++ joins.flatMap joinedNodes) := by
  induction joins generalizing earlier with
  | nil =>
      rw [List.flatMap_nil, writtenAll, Selector.parts?, hsimple, if_pos rfl, List.append_nil]
  | cons joined joins ih =>
      rw [List.flatMap_cons, writtenAll_append,
        parts?_joined joined hsimple hcombinator (startsBar_joined joins)]
      have hends := joined.2.endsSimple ([joined.1.node] ++ earlier)
      rw [← List.append_assoc, ← List.reverse_cons] at hends
      rw [joinedNodes, ih hends.left hends.right, List.reverse_append, List.reverse_reverse,
        List.append_assoc]

/-- A selector is read back from its tokens. -/
theorem Chain.parts? (selector : Chain) :
    Selector.parts? none [] none (writtenAll selector.nodes) = some selector.nodes := by
  have hends := selector.first.endsSimple []
  rw [Chain.nodes, writtenAll_append, selector.first.parts? (startsBar_joined selector.rest)]
  change Selector.parts? none (selector.first.nodes.reverse ++ []) none _ = _
  rw [parts?_joins selector.rest hends.left hends.right, List.append_nil, List.reverse_reverse]

end Reading

/-! ## Lists of selectors -/

/-- A token that ends no part of a list and belongs to no group. -/
def IsLoose (token : Token) : Prop :=
  isPlain token.kind = true ∧ endsPart token.kind = false

theorem Mark.isLoose (mark : Mark) : forall token, token ∈ mark.node.written -> IsLoose token := by
  intro token htoken
  cases mark with
  | ofClass name =>
      rcases List.mem_cons.mp htoken with rfl | htoken
      · exact ⟨rfl, rfl⟩
      · rw [List.mem_singleton.mp htoken]
        exact ⟨rfl, rfl⟩
  | ofId name =>
      rw [List.mem_singleton.mp htoken]
      exact ⟨rfl, rfl⟩

theorem Compound.isLoose (compound : Compound) : forall node, node ∈ compound.nodes ->
    forall token, token ∈ node.written -> IsLoose token := by
  have hmarks : forall (marks : List Mark) (node : Node), node ∈ marks.map Mark.node ->
      forall token, token ∈ node.written -> IsLoose token := by
    intro marks node hnode
    rcases List.mem_map.mp hnode with ⟨mark, -, rfl⟩
    exact mark.isLoose
  intro node hnode
  cases compound with
  | typed type marks =>
      rcases List.mem_cons.mp hnode with rfl | hnode
      · intro token htoken
        rw [type.written_node] at htoken
        rw [List.mem_singleton.mp htoken]
        cases type <;> exact ⟨rfl, rfl⟩
      · exact hmarks marks node hnode
  | marked first marks =>
      rcases List.mem_cons.mp hnode with rfl | hnode
      · exact first.isLoose
      · exact hmarks marks node hnode

theorem Chain.isLoose (selector : Chain) :
    forall token, token ∈ writtenAll selector.nodes -> IsLoose token := by
  intro token htoken
  rw [writtenAll_eq] at htoken
  rcases List.mem_flatMap.mp htoken with ⟨node, hnode, htoken⟩
  rcases List.mem_append.mp hnode with hnode | hnode
  · exact selector.first.isLoose node hnode token htoken
  · rcases List.mem_flatMap.mp hnode with ⟨⟨joint, compound⟩, -, hnode⟩
    rcases List.mem_cons.mp hnode with rfl | hnode
    · rw [joint.written_node] at htoken
      rw [List.mem_singleton.mp htoken]
      cases joint <;> exact ⟨rfl, rfl⟩
    · exact compound.isLoose node hnode token htoken

theorem Compound.begins (compound : Compound) (rest : List Node) :
    Begins (writtenAll (compound.nodes ++ rest)) := by
  rw [writtenAll_append]
  refine Begins.append ?_ _
  cases compound with
  | typed type marks =>
      rw [Compound.nodes, writtenAll, type.written_node]
      exact begins_cons (by cases type <;> rfl) _
  | marked first marks =>
      cases first with
      | ofClass name => exact begins_cons rfl _
      | ofId name => exact begins_cons rfl _

theorem Compound.ends (compound : Compound) (before : List Node) :
    Ends (writtenAll (before ++ compound.nodes)) := by
  rcases compound.exists_last with ⟨front, last, hnodes, -, hends⟩
  rw [hnodes, writtenAll_append, writtenAll_append, writtenAll, writtenAll, List.append_nil]
  exact (hends.append _).append _

theorem Chain.ends (selector : Chain) : Ends (writtenAll selector.nodes) := by
  rcases selector with ⟨first, joins⟩
  rcases List.eq_nil_or_concat joins with rfl | ⟨front, ⟨joint, compound⟩, rfl⟩
  · rw [Chain.nodes, List.flatMap_nil, List.append_nil]
    exact first.ends []
  · rw [Chain.nodes, List.concat_eq_append, List.flatMap_append, List.flatMap_cons,
      List.flatMap_nil, List.append_nil, joinedNodes]
    have hends := compound.ends (first.nodes ++ (front.flatMap joinedNodes ++ [joint.node]))
    rw [List.append_assoc, List.append_assoc] at hends
    exact hends

theorem Chain.isListed (selector : Chain) : selector.node.IsListed where
  closes := closes_plain fun token htoken => (selector.isLoose token htoken).left
  uncut := uncut_plain (fun token htoken => (selector.isLoose token htoken).left)
    (fun token htoken => (selector.isLoose token htoken).right) 0
  begins := selector.first.begins _
  ends := selector.ends

/-- The selectors of a rule are read back from their tokens. -/
theorem Ruleset.prelude (rule : Ruleset) :
    Selector.prelude none (writtenCommas rule.selectors) =
      ofConstruct (.selectorList rule.selectors) := by
  have hlisted : forall node, node ∈ rule.selectors -> node.IsListed := by
    intro node hnode
    rcases List.mem_map.mp hnode with ⟨selector, -, rfl⟩
    exact selector.isListed
  have htrim := trim_writtenCommas hlisted (List.cons_ne_nil _ _)
  have hparts : listParts (writtenCommas rule.selectors) = rule.selectors.map written := by
    rw [listParts, htrim, splitTopLevel_writtenCommas hlisted (List.cons_ne_nil _ _)]
  have hreads : forall selector : Chain,
      (Selector.parts? none [] none (trim selector.node.written)).map
        (ofPart none selector.node.written) = some selector.node := by
    intro selector
    rw [trim_eq_self selector.isListed.begins selector.isListed.ends]
    change (Selector.parts? none [] none (writtenAll selector.nodes)).map _ = _
    rw [selector.parts?, Option.map_some, ofPart, spanning_none]
    rfl
  have hall : (rule.selectors.map written).mapM (fun part =>
      (Selector.parts? none [] none (trim part)).map (ofPart none part)) = some rule.selectors := by
    rw [mapM_eq_some_iff, Ruleset.selectors, List.map_map, List.forall₂_map_left_iff,
      List.forall₂_map_right_iff, List.forall₂_same]
    exact fun selector _ => hreads selector
  rw [Selector.prelude, htrim, list?_eq, hparts, hall, Option.map_some, Option.getD_some,
    spanning_none]

/-! ## Reading back from text -/

/-- A text that a combinator may stand in front of: no space and no number. -/
def BeginsCompound (text : List Char) : Prop :=
  (forall b, b ∈ text.head? -> isSpace b = false) ∧ Numeral.startsUnsigned text = false

theorem Word.startsDigit (word : Word) (text : List Char) :
    Numeral.startsDigit (word.text.toList ++ text) = false := by
  rcases word.exists_cons with ⟨c, rest, hword, hc, -⟩
  rw [hword]
  exact (not_isDigit_of_isLetter hc).left

theorem Word.beginsCompound (word : Word) (text : List Char) :
    BeginsCompound (word.text.toList ++ text) := by
  have hdigit := word.startsDigit text
  rcases word.exists_cons with ⟨c, rest, hword, hc, -⟩
  rw [hword, List.cons_append] at hdigit ⊢
  constructor
  · intro b hb
    cases hb
    refine not_isSpace_of_isNameChar ?_
    rw [isNameChar, isNameStart_of_isLetter hc, Bool.true_or, Bool.true_or]
  · have hpoint : c ≠ '.' := by
      rintro rfl
      exact absurd hc (by decide)
    rw [Numeral.startsUnsigned]
    · exact hdigit
    · exact fun _ h => hpoint (List.cons.inj h).left

section Text

variable {behind : List Char}

theorem Mark.endsWord (mark : Mark) (rest : List Token) (behind : List Char) :
    EndsWord ((text (mark.node.written ++ rest)).toList ++ behind) := by
  cases mark with
  | ofClass name =>
      change EndsWord ((text (ofMark "." :: _)).toList ++ behind)
      rw [toList_text_cons]
      exact endsWord_cons (b := '.') (by decide) _
  | ofId name =>
      change EndsWord ((text (ofKind (.hash name.text) :: _)).toList ++ behind)
      rw [toList_text_cons, text_ofKind]
      change EndsWord (("#" ++ name.text).toList ++ _)
      rw [String.toList_append]
      exact endsWord_cons (b := '#') (by decide) _

theorem endsWord_marks (marks : List Mark) (h : EndsWord behind) :
    EndsWord ((text (writtenAll (marks.map Mark.node))).toList ++ behind) := by
  cases marks with
  | nil => exact h
  | cons mark marks => exact mark.endsWord _ behind

theorem Joint.endsWord (joint : Joint) (rest : List Token) (behind : List Char) :
    EndsWord ((text (joint.token :: rest)).toList ++ behind) := by
  rw [toList_text_cons]
  cases joint with
  | descendant => exact endsWord_cons (b := ' ') (by decide) _
  | child => exact endsWord_cons (b := '>') (by decide) _
  | next => exact endsWord_cons (b := '+') (by decide) _
  | later => exact endsWord_cons (b := '~') (by decide) _

theorem endsWord_joins (joins : List (Joint × Compound)) (h : EndsWord behind) :
    EndsWord ((text (writtenAll (joins.flatMap joinedNodes))).toList ++ behind) := by
  cases joins with
  | nil => exact h
  | cons joined joins =>
      rw [List.flatMap_cons, joinedNodes, List.cons_append, writtenAll, joined.1.written_node]
      exact joined.1.endsWord _ behind

/-! ### Simple selectors -/

theorem Mark.readsIn (mark : Mark) (h : EndsWord behind) : ReadsIn behind mark.node.written := by
  cases mark with
  | ofClass name =>
      refine ⟨⟨'.', [], rfl, ?_⟩, readsIn_singleton (name.readsBefore_ident h)⟩
      refine Lexeme.read_sign (Or.inr rfl) ?_
      rw [toList_text_cons]
      exact name.startsDigit _
  | ofId name => exact readsIn_singleton (name.readsBefore_hash h)

theorem readsIn_marks (marks : List Mark) (h : EndsWord behind) :
    ReadsIn behind (writtenAll (marks.map Mark.node)) := by
  induction marks with
  | nil => trivial
  | cons mark marks ih =>
      rw [List.map_cons, writtenAll, readsIn_append]
      exact ⟨mark.readsIn (endsWord_marks marks h), ih⟩

theorem TypeName.readsIn (type : TypeName) (h : EndsWord behind) :
    ReadsIn behind type.node.written := by
  rw [type.written_node]
  cases type with
  | any => exact readsIn_singleton ⟨'*', [], rfl, Lexeme.read_delim (by decide) behind⟩
  | word name => exact readsIn_singleton (name.readsBefore_ident h)

theorem Compound.readsIn (compound : Compound) (h : EndsWord behind) :
    ReadsIn behind (writtenAll compound.nodes) := by
  cases compound with
  | typed type marks =>
      rw [Compound.nodes, writtenAll, readsIn_append]
      exact ⟨type.readsIn (endsWord_marks marks h), readsIn_marks marks h⟩
  | marked first marks => exact readsIn_marks (first :: marks) h

theorem Compound.beginsCompound (compound : Compound) (rest : List Node) (behind : List Char) :
    BeginsCompound ((text (writtenAll (compound.nodes ++ rest))).toList ++ behind) := by
  have hmark : forall (mark : Mark) (more : List Token),
      BeginsCompound ((text (mark.node.written ++ more)).toList ++ behind) := by
    intro mark more
    cases mark with
    | ofClass name =>
        change BeginsCompound ((text (ofMark "." :: ofKind (.ident name.text) :: more)).toList ++ _)
        rw [toList_text_cons, toList_text_cons]
        refine ⟨?_, name.startsDigit _⟩
        intro b hb
        cases hb
        decide
    | ofId name =>
        change BeginsCompound ((text (ofKind (.hash name.text) :: more)).toList ++ _)
        rw [toList_text_cons, text_ofKind]
        change BeginsCompound (("#" ++ name.text).toList ++ _)
        rw [String.toList_append]
        refine ⟨?_, rfl⟩
        intro b hb
        cases hb
        decide
  cases compound with
  | typed type marks =>
      rw [Compound.nodes, List.cons_append, writtenAll, type.written_node, List.singleton_append,
        toList_text_cons]
      cases type with
      | any =>
          refine ⟨?_, rfl⟩
          intro b hb
          cases hb
          decide
      | word name => exact name.beginsCompound _
  | marked first marks => exact hmark first _

/-! ### Combinators -/

theorem Joint.readsBefore (joint : Joint) (h : BeginsCompound behind) :
    joint.token.ReadsBefore behind := by
  cases joint with
  | descendant => exact readsBefore_blank h.left
  | child => exact ⟨'>', [], rfl, Lexeme.read_delim (by decide) behind⟩
  | next => exact ⟨'+', [], rfl, Lexeme.read_sign (Or.inl rfl) h.right⟩
  | later => exact ⟨'~', [], rfl, Lexeme.read_delim (by decide) behind⟩

theorem readsIn_joins (joins : List (Joint × Compound)) (h : EndsWord behind) :
    ReadsIn behind (writtenAll (joins.flatMap joinedNodes)) := by
  induction joins with
  | nil => trivial
  | cons joined joins ih =>
      rcases joined with ⟨joint, compound⟩
      rw [List.flatMap_cons, writtenAll_append, readsIn_append, joinedNodes, writtenAll,
        joint.written_node]
      refine ⟨⟨joint.readsBefore ?_, compound.readsIn (endsWord_joins joins h)⟩, ih⟩
      have hbegins := compound.beginsCompound []
        ((text (writtenAll (joins.flatMap joinedNodes))).toList ++ behind)
      rw [List.append_nil] at hbegins
      exact hbegins

theorem Chain.readsIn (selector : Chain) (h : EndsWord behind) :
    ReadsIn behind selector.node.written := by
  change ReadsIn behind (writtenAll selector.nodes)
  rw [Chain.nodes, writtenAll_append, readsIn_append]
  exact ⟨selector.first.readsIn (endsWord_joins selector.rest h), readsIn_joins selector.rest h⟩

theorem readsIn_selectors (selectors : List Chain) (h : EndsWord behind) :
    ReadsIn behind (writtenCommas (selectors.map Chain.node)) := by
  induction selectors with
  | nil => trivial
  | cons selector rest ih =>
      cases rest with
      | nil => exact selector.readsIn h
      | cons next rest =>
          rw [List.map_cons, List.map_cons, writtenCommas_cons_cons, readsIn_append]
          refine ⟨selector.readsIn ?_, readsBefore_punctuation (c := ',') rfl _, ih⟩
          rw [toList_text_cons]
          exact endsWord_cons (b := ',') (by decide) _

end Text

end Canonical
end Stylesheet
