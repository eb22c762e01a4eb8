import Stylesheet.Proofs.Reread.Commas
import Stylesheet.Proofs.Reread.Components
import Stylesheet.Proofs.Selector.Position
import Stylesheet.Proofs.Token.Seamless

/-!
# Positions that are read back

A position is written without blanks, so that nothing within it is taken for the word between a
position and its selectors.
-/

namespace Stylesheet

open AnPlusB Character Lexical Node Token Run

/-! ## The characters of the notation -/

namespace AnPlusB

variable {text : List Char} {c : Char}

/-- A character of the notation. -/
def IsSymbol (c : Char) : Prop :=
  isSign c = true ∨ isVariable c = true ∨ isDigit c = true

instance (c : Char) : Decidable (IsSymbol c) :=
  inferInstanceAs (Decidable (isSign c = true ∨ isVariable c = true ∨ isDigit c = true))

theorem isSymbol_of_mem_stride (h : text ∈ stride) (hc : c ∈ text) : IsSymbol c :=
  (isSign_or_isDigit_of_mem_stride h hc).imp_right Or.inr

theorem isSymbol_of_mem_anPlusB (h : text ∈ anPlusB) (hc : c ∈ text) : IsSymbol c := by
  rcases variable_cases text with hplain | ⟨front, letter, rest, rfl, hfront, hletter⟩
  · have hinteger := (mem_anPlusB_plain hplain).mp h
    exact isSymbol_of_mem_stride (mem_stride_of_mem_integer hinteger) hc
  · rcases (mem_anPlusB_variable hfront hletter).mp h with ⟨hstride, hshift⟩
    rcases List.mem_append.mp hc with hc | hc
    · exact isSymbol_of_mem_stride hstride hc
    rcases List.mem_cons.mp hc with rfl | hc
    · exact Or.inr (Or.inl hletter)
    rcases hshift with hnil | hshift
    · rw [show rest = [] from hnil] at hc
      cases hc
    · have hinteger := mem_integer_iff.mpr (Or.inl hshift)
      exact isSymbol_of_mem_stride (mem_stride_of_mem_integer hinteger) hc

theorem IsSymbol.not_isBlank (h : IsSymbol c) : isBlank c = false :=
  h.elim not_isBlank_of_isSign fun h => h.elim not_isBlank_of_isVariable not_isBlank_of_isDigit

end AnPlusB

/-! ## The tokens of a formula -/

namespace Token

/-- A token that stands for itself wherever it is written. -/
structure IsSolid (token : Token) : Prop where
  plain : isPlain token.kind = true
  uncut : endsPart token.kind = false
  solid : token.isTrivia = false

end Token

namespace Run

theorem mem_text_of_mem {run : List Token} {token : Token} (htoken : token ∈ run) {c : Char}
    (hc : c ∈ token.text.toList) : c ∈ (text run).toList := by
  rcases List.append_of_mem htoken with ⟨front, back, rfl⟩
  rw [text_append, text_cons, String.toList_append, String.toList_append]
  exact List.mem_append_right _ (List.mem_append_left _ hc)

/-- No bracket, no separator and no comment is written with the characters of the notation. -/
theorem isSolid_of_symbols {run : List Token} (hrun : Seamless run)
    (h : forall c, c ∈ (text run).toList -> IsSymbol c) {token : Token} (htoken : token ∈ run) :
    token.IsSolid := by
  have hsymbols : forall c, c ∈ token.text.toList -> IsSymbol c :=
    fun c hc => h c (mem_text_of_mem htoken hc)
  have hspelled := hrun.isSpelled htoken
  have heof := hrun.kind_ne_eof htoken
  have hspelling : forall spelling, token.kind.spelling? = some spelling ->
      forall c, c ∈ spelling.toList -> IsSymbol c := by
    intro spelling hspelling c hc
    rw [← hspelled.spelling spelling hspelling] at hc
    exact hsymbols c hc
  -- a kind with a spelling of its own has a mark in it that no symbol is
  have hmark : forall spelling mark, token.kind.spelling? = some spelling ->
      mark ∈ spelling.toList -> ¬ IsSymbol mark -> token.IsSolid :=
    fun spelling mark hspell hmem hnot => absurd (hspelling spelling hspell mark hmem) hnot
  cases hkind : token.kind with
  | function name => exact hmark _ '(' (by rw [hkind]; rfl) (by simp) (by decide)
  | comment content => exact hmark _ '/' (by rw [hkind]; rfl) (by simp) (by decide)
  | semicolon => exact hmark _ ';' (by rw [hkind]; rfl) (by simp) (by decide)
  | comma => exact hmark _ ',' (by rw [hkind]; rfl) (by simp) (by decide)
  | leftBrace => exact hmark _ '\x7b' (by rw [hkind]; rfl) (by simp) (by decide)
  | rightBrace => exact hmark _ '\x7d' (by rw [hkind]; rfl) (by simp) (by decide)
  | leftParen => exact hmark _ '(' (by rw [hkind]; rfl) (by simp) (by decide)
  | rightParen => exact hmark _ ')' (by rw [hkind]; rfl) (by simp) (by decide)
  | leftBracket => exact hmark _ '[' (by rw [hkind]; rfl) (by simp) (by decide)
  | rightBracket => exact hmark _ ']' (by rw [hkind]; rfl) (by simp) (by decide)
  | whitespace =>
      have hspaces := spaces_of_whitespace hrun htoken hkind
      cases htext : token.text.toList with
      | nil => exact absurd (String.toList_eq_nil_iff.mp htext) (hspelled.text_ne_empty heof)
      | cons c rest =>
          have hmem : c ∈ token.text.toList := htext ▸ List.mem_cons_self
          have hblank := isBlank_of_isSpace (hspaces c hmem)
          rw [(hsymbols c hmem).not_isBlank] at hblank
          cases hblank
  | eof => exact absurd hkind heof
  | _ => exact ⟨by rw [hkind]; rfl, by rw [hkind]; rfl, by rw [Token.isTrivia, hkind]; rfl⟩

/-- The tokens that a formula has by itself. -/
theorem isSolid_ofText {text : String} (h : forall c, c ∈ text.toList -> IsSymbol c) :
    forall token, token ∈ ofText text -> token.IsSolid := by
  cases htokens : tokenize text with
  | error error =>
      intro token htoken
      rw [ofText, htokens] at htoken
      rw [List.mem_singleton.mp htoken]
      exact ⟨rfl, rfl, rfl⟩
  | ok tokens =>
      rcases (scan_of_scanFrom htokens).lexes with ⟨body, last, rfl, hlast, hbody, hlexes⟩
      have hseamless := seamless_of_lexes hlexes
      rw [ofText_of_tokenize htokens (congrArg Token.kind hlast) hbody]
      intro token htoken
      refine isSolid_of_symbols hseamless ?_ htoken
      rw [text_of_lexes hlexes]
      exact h

end Run

namespace Selector

/-! ## Formulas -/

/-- The construct of a position is read back from its tokens. -/
structure IsFormula (construct : Construct Node) : Prop where
  ne_nil : writtenConstruct construct ≠ []
  solid : forall token, token ∈ writtenConstruct construct -> token.IsSolid
  reads : position? (writtenConstruct construct) = some construct

theorem isFormula_of_position? {run : List Token} {construct : Construct Node}
    (h : position? run = some construct) : IsFormula construct := by
  rw [position?_eq_some_iff] at h
  have hsolid : forall c, c ∈ squeezed (Run.text run).toList -> isBlank c = false := by
    intro c hc
    simpa using List.of_mem_filter hc
  generalize squeezed (Run.text run).toList = text at h hsolid
  cases h with
  | parity htext =>
      have hwritten : (Run.text (writtenConstruct (.identifier (String.ofList text)))).toList =
          text := by
        rw [writtenConstruct, text_cons, text_nil, String.append_empty]
        exact String.toList_ofList
      refine ⟨List.cons_ne_nil _ _, ?_, ?_⟩
      · intro token htoken
        rw [List.mem_singleton.mp htoken]
        exact ⟨rfl, rfl, rfl⟩
      · rw [position?_eq_some_iff, hwritten, squeezed_eq_self hsolid]
        exact IsPosition.parity htext
  | @formula a b htext hread =>
      have hread' := parse?_text hread
      generalize hformula : AnPlusB.text ⟨a, b⟩ = formula at hread'
      have hmem : formula.toList ∈ anPlusB := by
        rw [← isSome_parse?_iff, String.ofList_toList, hread']
        rfl
      have hsymbols : forall c, c ∈ formula.toList -> IsSymbol c :=
        fun c hc => isSymbol_of_mem_anPlusB hmem hc
      have hwritten : writtenConstruct (.anPlusB a b) = ofText formula := by
        rw [writtenConstruct, hformula]
      refine ⟨?_, ?_, ?_⟩
      · intro hnil
        rcases exists_cons_of_mem_anPlusB hmem with ⟨c, rest, hcons, -⟩
        have hempty := text_ofText formula
        rw [← hwritten, hnil, text_nil] at hempty
        rw [← hempty] at hcons
        cases hcons
      · rw [hwritten]
        exact isSolid_ofText hsymbols
      · rw [position?_eq_some_iff, hwritten, text_ofText,
          squeezed_eq_self fun c hc => (hsymbols c hc).not_isBlank]
        refine IsPosition.of_read ?_
        rw [String.ofList_toList]
        exact hread'

/-- A position is read back from the tokens of its formula, with the same selectors. -/
theorem exists_formula_of_nth? {run formula : List Token} {selectors : Option Node} {node : Node}
    (h : nth? none run formula selectors = some node) :
    exists construct, IsFormula construct ∧
      node = ofConstruct (.nth (ofConstruct construct) selectors) ∧
        forall run, nth? none run (writtenConstruct construct) selectors = some node := by
  rcases Option.map_eq_some_iff.mp h with ⟨construct, hconstruct, rfl⟩
  have hformula := isFormula_of_position? hconstruct
  refine ⟨construct, hformula, ?_, ?_⟩
  · rw [spanning_none, spanning_none]
  · intro run
    rw [nth?, hformula.reads, Option.map_some, spanning_none, spanning_none, spanning_none,
      spanning_none]

/-! ## The word behind a formula -/

section Of

variable {front : List Token}

theorem endsInSpace_solid (h : forall token, token ∈ front -> token.IsSolid) :
    endsInSpace front = false := by
  unfold endsInSpace
  cases hlast : front.getLast? with
  | none => rfl
  | some token =>
      have htrivia := (h token (List.mem_of_getLast? hlast)).solid
      rw [Option.any_some, decide_eq_false_iff_not]
      intro hkind
      rw [Token.isTrivia, hkind] at htrivia
      cases htrivia

theorem splitOf?_solid (h : forall token, token ∈ front -> token.IsSolid) :
    splitOf? front = none := by
  refine splitOf?_eq_none_iff.mpr ?_
  rintro before word back rfl -
  exact endsInSpace_solid fun token htoken => h token (List.mem_append_left _ htoken)

theorem splitOf?_written (h : forall token, token ∈ front -> token.IsSolid) (back : List Token) :
    splitOf? (front ++ ([blank, ofKind (.ident "of"), blank] ++ back)) =
      some (front ++ [blank], blank :: back) := by
  refine splitOf?_eq_some_iff.mpr ⟨⟨ofKind (.ident "of"), ?_, by simp⟩, ?_, ?_⟩
  · exact beq_self_eq_true _
  · rw [endsInSpace, List.getLast?_concat]
    rfl
  · intro before word after heq _
    have hprefix : before <+: front ++ [blank] := ⟨word :: after, heq.symm⟩
    rcases List.prefix_concat_iff.mp hprefix with hwhole | hfront
    · have hlength := congrArg List.length heq
      rw [hwhole] at hlength
      simp at hlength
    · exact endsInSpace_solid fun token htoken => h token (hfront.subset htoken)

end Of

end Selector
end Stylesheet
