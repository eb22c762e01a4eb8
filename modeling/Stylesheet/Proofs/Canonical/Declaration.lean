import Stylesheet.Proofs.Canonical.Components
import Stylesheet.Proofs.Reread.Declaration

/-!
# Canonical declarations

A declaration is read back from its tokens: no item has the exclamation mark that a mark of
importance begins with.
-/

namespace Stylesheet
namespace Canonical

open Character Node Token Run

/-! ## Properties -/

theorem Word.ofText (word : Word) : Token.ofText word.text = [ofKind (.ident word.text)] := by
  have hreads : ReadsIn [] [ofKind (.ident word.text)] :=
    readsIn_singleton (word.readsBefore_ident fun _ h => nomatch h)
  have hseamless := seamless_of_readsIn hreads fun token htoken => by
    rw [List.mem_singleton.mp htoken]
    rfl
  have htext : Run.text [ofKind (.ident word.text)] = word.text := by
    rw [text_cons, text_nil, String.append_empty]
    rfl
  have h := ofText_of_seamless hseamless
  rw [htext] at h
  exact h

/-- The characters of words lie between the blank characters. -/
theorem not_isBlank_of_isWordChar {c : Char} (h : isWordChar c = true) : isBlank c = false := by
  have hrange : 33 ≤ c.toNat ∧ c.toNat ≤ 122 := by
    simp only [isWordChar, isLetter, isDigit, Bool.or_eq_true, Bool.and_eq_true, decide_eq_true_eq,
      beq_iff_eq, Char.le_def, UInt32.le_iff_toNat_le] at h
    change (((97 ≤ c.val.toNat ∧ c.val.toNat ≤ 122 ∨ 65 ≤ c.val.toNat ∧ c.val.toNat ≤ 90) ∨
      48 ≤ c.val.toNat ∧ c.val.toNat ≤ 57) ∨ c = '_') ∨ c = '-' at h
    change 33 ≤ c.val.toNat ∧ c.val.toNat ≤ 122
    rcases h with (h | rfl) | rfl
    · omega
    · decide
    · decide
  simp only [isBlank]
  generalize c.toNat = n at hrange
  simp only [Bool.or_eq_false_iff, Bool.and_eq_false_imp, decide_eq_true_eq,
    decide_eq_false_iff_not, beq_eq_false_iff_ne]
  omega

theorem isWordChar_of_isLetter {c : Char} (h : isLetter c = true) : isWordChar c = true := by
  rw [isWordChar, h, Bool.true_or, Bool.true_or, Bool.true_or]

theorem Word.isProperty (word : Word) : Declaration.isProperty word.text = true := by
  have h := word.isWord
  cases htext : word.text.toList with
  | nil =>
      rw [htext] at h
      cases h
  | cons c rest =>
      rw [htext, Canonical.isWord, Bool.and_eq_true, List.all_eq_true] at h
      have hne : word.text.isEmpty = false := by
        rw [← Bool.not_eq_true, String.isEmpty_iff]
        rintro hempty
        rw [hempty] at htext
        cases htext
      rw [Declaration.isProperty, hne, htext, List.all_cons,
        not_isBlank_of_isWordChar (isWordChar_of_isLetter h.left)]
      exact List.all_eq_true.mpr fun d hd => by rw [not_isBlank_of_isWordChar (h.right d hd)]; rfl

theorem Word.not_isCustom (word : Word) : Declaration.isCustom word.text = false := by
  rcases word.exists_cons with ⟨c, rest, hword, hc, -⟩
  have hhyphen : ('-' == c) = false := by
    apply beq_false_of_ne
    rintro rfl
    exact absurd hc (by decide)
  rw [Declaration.isCustom, hword, List.isPrefixOf_cons_cons, hhyphen]
  rfl

/-! ## Marks of importance -/

theorem splitImportant_plain {run : List Token} (htrim : trim run = run)
    (hbang : forall token, token ∈ run -> token.kind ≠ .delim '!') :
    Declaration.splitImportant run = (run, false) := by
  rcases Declaration.splitImportant_cases run with
    ⟨⟨front, bang, word, hrun, hkind, -⟩, -⟩ | ⟨-, hsplit⟩
  · have hmem : bang ∈ significant run := by
      rw [hrun]
      exact List.mem_append_right _ List.mem_cons_self
    exact absurd hkind (hbang bang (List.mem_of_mem_filter hmem))
  · rw [hsplit, htrim]

/-! ## Declarations -/

namespace Assignment

variable (assignment : Assignment)

/-- The mark of importance of a declaration that has one. -/
def mark : List Token :=
  if assignment.important then importance else []

/-- The tokens of a declaration behind its property. -/
def behind : List Token :=
  ofKind .colon :: (writtenAll assignment.value.nodes ++ assignment.mark)

theorem written_node :
    assignment.node.written = ofKind (.ident assignment.property.text) :: assignment.behind := by
  rw [node, written_ofConstruct, writtenConstruct, assignment.property.ofText,
    written_ofConstruct, writtenConstruct]
  rfl

theorem splitImportant :
    Declaration.splitImportant (writtenAll assignment.value.nodes ++ assignment.mark) =
      (writtenAll assignment.value.nodes, assignment.important) := by
  have htrim := assignment.value.isList.trim_eq
  unfold mark
  cases assignment.important with
  | true => exact Declaration.splitImportant_importance htrim
  | false =>
      rw [if_neg Bool.false_ne_true, List.append_nil]
      exact splitImportant_plain htrim assignment.value.kind_ne_bang

theorem value_eq :
    Declaration.value none assignment.property.text (writtenAll assignment.value.nodes) =
      ofConstruct (.value assignment.value.nodes) := by
  have hlist := assignment.value.isList
  rw [Declaration.value, assignment.property.not_isCustom, if_neg Bool.false_ne_true, Value.ofRun,
    hlist.trim_eq, hlist.reads]
  exact spanning_none _ _

theorem ends_behind : Ends assignment.behind := by
  unfold behind mark
  cases assignment.important with
  | true =>
      have hmark : Ends importance := (ends_singleton rfl).cons (ofKind (.delim '!'))
      exact (hmark.append _).cons _
  | false =>
      rw [if_neg Bool.false_ne_true, List.append_nil]
      cases assignment.value with
      | empty => exact ends_singleton rfl
      | row row => exact row.ends_written.cons _

theorem parse :
    Declaration.parse none (ofKind (.ident assignment.property.text)) assignment.behind =
      .ok assignment.node := by
  have htrim : trim (ofKind (.ident assignment.property.text) :: assignment.behind) =
      ofKind (.ident assignment.property.text) :: assignment.behind :=
    trim_eq_self (begins_cons rfl _) (assignment.ends_behind.cons _)
  have hproperty : Run.text (trim [ofKind (.ident assignment.property.text)]) =
      assignment.property.text := by
    rw [trim_eq_self (begins_cons rfl _) (ends_singleton rfl), text_cons, text_nil,
      String.append_empty]
    rfl
  have hdrop : (ofKind (.ident assignment.property.text) :: assignment.behind).dropWhile
      (·.kind != .colon) = assignment.behind := rfl
  have htake : (ofKind (.ident assignment.property.text) :: assignment.behind).takeWhile
      (·.kind != .colon) = [ofKind (.ident assignment.property.text)] := rfl
  simp only [Declaration.parse, htrim, hdrop, htake, hproperty, assignment.property.isProperty]
  simp only [behind, if_true, assignment.splitImportant, assignment.value_eq, spanning_none]
  rfl

/-! ## Reading back from tokens -/

theorem closes_behind : Closes 0 assignment.behind := by
  have hcolon : Closes 0 [ofKind .colon] := closes_token rfl
  have hmark : Closes 0 assignment.mark := by
    unfold mark
    cases assignment.important with
    | true => exact closes_plain (by decide)
    | false => exact closes_nil
  exact hcolon.append (assignment.value.isList.closes.append hmark)

theorem uncut_behind : Uncut Sheet.endsDeclaration 0 assignment.behind := by
  have hmono : forall kind, Sheet.endsPrelude kind = false ->
      Sheet.endsDeclaration kind = false := by
    intro kind hkind
    cases kind <;> first | rfl | cases hkind
  have hvalue := assignment.value.isList
  have hcolon : Uncut Sheet.endsDeclaration 0 [ofKind .colon] := uncut_token rfl rfl
  have hmark : Uncut Sheet.endsDeclaration 0 assignment.mark := by
    unfold mark
    cases assignment.important with
    | true => exact uncut_plain (by decide) (by decide) 0
    | false => trivial
  refine uncut_append.mpr ⟨hcolon, uncut_append.mpr ⟨hvalue.uncut.mono hmono, ?_⟩⟩
  rw [hvalue.closes.depthBehind]
  exact hmark

theorem isReread : Declaration.IsReread assignment.node.written assignment.node where
  declaration := rfl
  tallies := tallies_of_significant_eq rfl
  reads := by
    refine ⟨_, _, assignment.written_node, ?_, assignment.parse⟩
    constructor <;> (intros; exact TokenKind.noConfusion)
  uncut := by
    rw [assignment.written_node]
    exact ⟨TokenKind.noConfusion, fun _ => rfl, assignment.uncut_behind⟩

theorem depthBehind_written : depthBehind 0 assignment.node.written = 0 := by
  rw [assignment.written_node]
  exact assignment.closes_behind.depthBehind 0

end Assignment

/-! ## Reading back from text -/

section Text

variable {behind : List Char}

theorem readsBefore_bang (text : List Char) : (ofKind (.delim '!')).ReadsBefore text := by
  refine readsBefore_delim ?_
  have hident : Name.startsIdent ('!' :: text) = false :=
    not_startsIdent_cons (by decide) (by decide) text
  unfold Lexeme.read
  rw [hident]
  rfl

/-- The word of a mark of importance. -/
def importantWord : Word :=
  ⟨"important", by decide, by decide⟩

namespace Assignment

theorem endsItem_mark (assignment : Assignment) (h : EndsItem behind) :
    EndsItem ((text assignment.mark).toList ++ behind) := by
  unfold mark
  cases assignment.important with
  | true => exact endsItem_cons (b := '!') (by decide) _
  | false => exact h

theorem readsIn_mark (assignment : Assignment) (h : EndsItem behind) :
    ReadsIn behind assignment.mark := by
  unfold mark
  cases assignment.important with
  | true =>
      exact ⟨readsBefore_bang _, readsIn_singleton (importantWord.readsBefore_ident h.endsWord)⟩
  | false => trivial

theorem readsIn (assignment : Assignment) (h : EndsItem behind) :
    ReadsIn behind assignment.node.written := by
  rw [assignment.written_node, Assignment.behind]
  refine ⟨assignment.property.readsBefore_ident ?_, readsBefore_punctuation (c := ':') rfl _,
    readsIn_append.mpr ⟨?_, assignment.readsIn_mark h⟩⟩
  · rw [toList_text_cons]
    exact endsWord_cons (b := ':') (by decide) _
  · exact assignment.value.readsIn (assignment.endsItem_mark h)

end Assignment

theorem readsIn_assignments (assignments : List Assignment) (h : EndsItem behind) :
    ReadsIn behind (writtenBlock (assignments.map Assignment.node)) := by
  induction assignments with
  | nil => trivial
  | cons assignment more ih =>
      cases more with
      | nil => exact assignment.readsIn h
      | cons next more =>
          have hdeclaration : assignment.node.isDeclaration = true := rfl
          rw [List.map_cons, List.map_cons, writtenBlock_cons_cons, hdeclaration, if_pos rfl,
            List.append_assoc, readsIn_append, List.singleton_append]
          refine ⟨assignment.readsIn ?_, readsBefore_punctuation (c := ';') rfl _, ih⟩
          rw [toList_text_cons]
          exact endsItem_cons (b := ';') (by decide) _

end Text

end Canonical
end Stylesheet
