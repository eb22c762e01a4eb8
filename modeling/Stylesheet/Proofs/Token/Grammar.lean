import Stylesheet.Proofs.Token.Lexical
import Stylesheet.Proofs.Token.Neighbours
import Stylesheet.Proofs.Token.Unclosed

/-!
# The lexical grammar

Main statement: every token of a source belongs to the language of its kind, and no identifier and
no number could have been read further.
-/

namespace Stylesheet

/-! ## Strings, addresses and ranges -/

namespace Lexeme

open Character Lexical
open scoped Computability

variable {c : Char} {text : List Char}

theorem splitString?_mem {quote : Char} {body after : List Char}
    (h : splitString? quote text = some (body, after)) : body ∈ (piece quote)∗ * mark quote := by
  fun_induction splitString? quote text generalizing body after with
  | case1 => cases h
  | case2 d rest ih =>
      rcases Option.map_eq_some_iff.mp h with ⟨⟨inner, tail⟩, hinner, heq⟩
      cases heq
      have hescape : ['\\', d] ∈ piece quote := Or.inr (cons_mem_mark_mul (singleton_mem_one rfl))
      exact append_mem_kstar_mul hescape (ih hinner)
  | case3 => cases h
  | case4 d rest hescape hstop hquote =>
      cases h
      rw [beq_iff_eq] at hquote
      rw [hquote]
      exact Language.append_mem_mul (Language.nil_mem_kstar _) (singleton_mem_mark quote)
  | case5 d rest hescape hstop hquote ih =>
      rcases Option.map_eq_some_iff.mp h with ⟨⟨inner, tail⟩, hinner, heq⟩
      cases heq
      rw [Bool.not_eq_true, Bool.or_eq_false_iff] at hstop
      rw [Bool.not_eq_true] at hquote
      have hpiece : [d] ∈ piece quote := by
        refine Or.inl (singleton_mem_one ?_)
        simp [bne, hstop.1, hstop.2, hquote]
      exact append_mem_kstar_mul hpiece (ih hinner)

theorem quoted_mem_string (hquote : isQuote c = true) {body : List Char}
    (h : body ∈ (piece c)∗ * mark c) : c :: body ∈ string := by
  rw [isQuote, Bool.or_eq_true, beq_iff_eq, beq_iff_eq] at hquote
  rcases hquote with rfl | rfl
  · exact Or.inl (cons_mem_mark_mul h)
  · exact Or.inr (cons_mem_mark_mul h)

theorem not_infix_splitComment? {content after : List Char}
    (h : splitComment? text = some (content, after)) : ¬ ['*', '/'] <:+: content := by
  fun_induction splitComment? text generalizing content after with
  | case1 => cases h
  | case2 rest =>
      cases h
      simp
  | case3 d rest hend ih =>
      rcases Option.map_eq_some_iff.mp h with ⟨⟨inner, tail⟩, hinner, heq⟩
      cases heq
      have hfirst : ¬ ['*', '/'] <+: d :: inner := by
        rintro ⟨more, heq⟩
        injection heq with hd heq
        have hrest : rest = '/' :: (more ++ '*' :: '/' :: after) := by
          rw [← splitComment?_append hinner, ← heq]
          rfl
        exact hend _ hd.symm hrest
      rw [List.infix_cons_iff, or_iff_right hfirst]
      exact ih hinner

/-- An address ends before its first free parenthesis or space. -/
theorem isPlain_splitAddress {address : Address} (h : splitAddress text = .ok address) :
    IsPlain address.content := by
  have hread := isReadUpTo_splitAddress text
  rw [h] at hread
  generalize hresult : (Except.ok address : Except LexFailure Address) = result at hread
  cases hread with
  | plain => cases hresult
  | @stops front back c hstops =>
      rcases extend_eq_ok hresult.symm with ⟨inner, hinner, rfl⟩
      have hnil : inner.content = [] := by
        rcases hstops.stops with rfl | hspace
        · rw [splitAddress_paren] at hinner
          cases hinner
          rfl
        · rcases splitAddress_space hspace back with ⟨after, _, hclosed⟩ | ⟨_, hfailed⟩
          · rw [hclosed] at hinner
            cases hinner
            rfl
          · rw [hfailed] at hinner
            cases hinner
      rw [hnil, List.append_nil]
      exact hstops.plain

theorem splitRangeEnd_mem (text : List Char) :
    (splitRangeEnd text).1 ∈ optional (mark '-' * upToSix isHexDigit) := by
  unfold splitRangeEnd
  split
  · split
    · exact mem_optional (cons_mem_mark_mul (takeWhile_mem_upToSix ‹_›))
    · exact nil_mem_optional _
  · exact nil_mem_optional _

theorem range_mem {behind : List Char} (hc : c = 'u' ∨ c = 'U')
    (hstarts : startsRange ('+' :: behind) = true) : (range c behind).text ∈ unicodeRange := by
  have hdigit : behind.head?.any isRangeDigit = true := by
    cases behind with
    | nil => cases hstarts
    | cons d behind => exact hstarts
  have hrest := Language.append_mem_mul (takeWhile_mem_upToSix hdigit)
    (splitRangeEnd_mem (splitUpToSix isRangeDigit behind).2)
  have hplus := cons_mem_mark_mul (c := '+') hrest
  refine Language.append_mem_mul (a := [c]) ?_ hplus
  rcases hc with rfl | rfl
  · exact Or.inl (singleton_mem_mark 'u')
  · exact Or.inr (singleton_mem_mark 'U')

end Lexeme

/-! ## Tokens -/

namespace TokenKind

open Character Lexical

/-- What a token holds belongs to the language of its kind. -/
def IsGrammatical : TokenKind -> Prop
  | ident name | function name | atKeyword name => name.toList ∈ identifier
  | hash name => name.toList ∈ Lexical.name
  | string quoted => quoted.toList ∈ Lexical.string
  | url content => Lexeme.IsPlain content.toList
  | number value | percentage value => value.toList ∈ numeral
  | dimension value unit => value.toList ∈ numeral ∧ unit.toList ∈ identifier
  | unicodeRange range => range.toList ∈ Lexical.unicodeRange
  | comment content => ¬ ['*', '/'] <:+: content.toList
  | _ => True

/-- Nothing stands behind a token that would have made it longer or another one. -/
def EndsBefore : TokenKind -> List Char -> Prop
  | ident _, behind => ¬ Begins (mark '(' + unit) behind
  | number _, behind => ¬ Begins (one isDigit + mark '%' + identifierStart) behind
  | _, _ => True

end TokenKind

namespace Lexeme

open Character Lexical

variable {c : Char} {text rest : List Char} {lexeme : Lexeme}

theorem isGrammatical_of_isPunctuation {kind : TokenKind} (h : kind.isPunctuation = true) :
    kind.IsGrammatical ∧ forall behind, kind.EndsBefore behind := by
  cases kind with
  | leftParen | rightParen | leftBracket | rightBracket | leftBrace | rightBrace
  | colon | semicolon | comma => exact ⟨trivial, fun _ => trivial⟩
  | _ => cases h

theorem isGrammatical_numeric (h : Numeral.starts text = true) :
    (numeric text).kind.IsGrammatical ∧ (numeric text).kind.EndsBefore (numeric text).rest := by
  have hvalue := Numeral.split_mem h
  have hdigit := Numeral.not_startsDigit_split text
  rcases hsplit : Numeral.split text with ⟨value, behind⟩
  rw [hsplit] at hvalue hdigit
  rcases hident : Name.startsIdent behind with _ | _
  · by_cases hpercent : behind.head? = some '%'
    · rcases List.head?_eq_some_iff.mp hpercent with ⟨after, rfl⟩
      rw [numeric_percentage hsplit]
      refine ⟨?_, trivial⟩
      rw [TokenKind.IsGrammatical, String.toList_ofList]
      exact hvalue
    · rw [numeric_number hsplit hident hpercent]
      constructor
      · rw [TokenKind.IsGrammatical, String.toList_ofList]
        exact hvalue
      · rw [TokenKind.EndsBefore, begins_add, begins_add, begins_one, begins_mark]
        rintro ((hnumeral | hmark) | hstart)
        · cases behind with
          | nil => cases hnumeral
          | cons d after =>
              rw [show Numeral.startsDigit (d :: after) = true from hnumeral] at hdigit
              cases hdigit
        · exact hpercent hmark
        · rw [Name.startsIdent_of_begins hstart] at hident
          cases hident
  · have hunit := Name.split_mem_identifier hident
    rcases hname : Name.split behind with ⟨unit, after⟩
    rw [hname] at hunit
    rw [numeric_dimension hsplit hident hname]
    refine ⟨?_, trivial⟩
    rw [TokenKind.IsGrammatical, String.toList_ofList, String.toList_ofList]
    exact ⟨hvalue, hunit⟩

theorem isGrammatical_named (hstarts : Name.startsIdent text = true)
    (h : named text = .ok lexeme) :
    lexeme.kind.IsGrammatical ∧ lexeme.kind.EndsBefore lexeme.rest := by
  have hname := Name.split_mem_identifier hstarts
  have hunit := Name.splitUnit?_split text
  cases names_of_named h with
  | ident hsplit hparen =>
      rw [hsplit] at hname hunit
      constructor
      · rw [TokenKind.IsGrammatical, String.toList_ofList]
        exact hname
      · rw [TokenKind.EndsBefore, begins_add, begins_mark, Name.begins_unit, hunit]
        rintro (hhead | hsome)
        · exact hparen hhead
        · cases hsome
  | function hsplit =>
      rw [hsplit] at hname
      refine ⟨?_, trivial⟩
      rw [TokenKind.IsGrammatical, String.toList_ofList]
      exact hname
  | url hsplit hword hquoted haddress =>
      refine ⟨?_, trivial⟩
      rw [TokenKind.IsGrammatical, String.toList_ofList]
      exact isPlain_splitAddress haddress

theorem isGrammatical_of_read (h : read c rest = .ok lexeme) :
    lexeme.kind.IsGrammatical ∧ lexeme.kind.EndsBefore lexeme.rest := by
  cases isRead_of_read h with
  | whitespace => exact ⟨trivial, trivial⟩
  | comment hc hrest hsplit =>
      refine ⟨?_, trivial⟩
      rw [TokenKind.IsGrammatical, String.toList_ofList]
      exact not_infix_splitComment? hsplit
  | string hquote hsplit =>
      refine ⟨?_, trivial⟩
      rw [TokenKind.IsGrammatical, String.toList_ofList]
      exact quoted_mem_string hquote (splitString?_mem hsplit)
  | hash hc hunit =>
      refine ⟨?_, trivial⟩
      rw [marked, TokenKind.IsGrammatical, String.toList_ofList]
      exact Name.split_mem_name hunit
  | punctuation hkind =>
      have hpunctuation := isPunctuation_of_punctuation? hkind
      exact (isGrammatical_of_isPunctuation hpunctuation).imp_right fun hends => hends rest
  | cdo => exact ⟨trivial, trivial⟩
  | numeric hstarts => exact isGrammatical_numeric hstarts
  | cdc => exact ⟨trivial, trivial⟩
  | atKeyword hc hstarts =>
      refine ⟨?_, trivial⟩
      rw [marked, TokenKind.IsGrammatical, String.toList_ofList]
      exact Name.split_mem_identifier hstarts
  | range hc hrest hstarts =>
      refine ⟨?_, trivial⟩
      rw [hrest] at hstarts
      rw [range, TokenKind.IsGrammatical, String.toList_ofList]
      exact range_mem hc hstarts
  | named hstarts hnamed => exact isGrammatical_named hstarts hnamed
  | delim => exact ⟨trivial, trivial⟩

end Lexeme

namespace Token

/--
Every token of a source belongs to the language of its kind, and what stands behind it in the
source would not have made it longer.
-/
theorem isGrammatical_of_tokenize {source : String} {tokens : List Token}
    (h : tokenize source = .ok tokens) {token : Token} (hmem : token ∈ tokens) :
    token.kind.IsGrammatical ∧
      token.kind.EndsBefore (source.toList.drop token.stop.offset) := by
  by_cases hkind : token.kind = .eof
  · rw [hkind]
    exact ⟨trivial, trivial⟩
  · rcases (scan_of_scanFrom h).exists_readsBefore hmem hkind with
      ⟨front, behind, htext, hstart, c, body, hbody, hread⟩
    have hstop : token.stop.offset = (front ++ token.text.toList).length := by
      rw [stop, hstart, ← Position.after_append, Position.offset_after]
      exact Nat.zero_add _
    rw [← htext, hstop, List.drop_left]
    exact Lexeme.isGrammatical_of_read hread

/-- An escape takes one space with it, and a sign before a point begins a number. -/
theorem isGrammatical_escaped_identifier :
    tokenize "-\\61 b+.5" = .ok
        [⟨.ident "-\\61 b", "-\\61 b", ⟨1, 1, 0⟩⟩, ⟨.number "+.5", "+.5", ⟨1, 7, 6⟩⟩,
          ⟨.eof, "", ⟨1, 10, 9⟩⟩] ∧
      "-\\61 b".toList ∈ Lexical.identifier ∧
        ¬ Lexical.Begins (Lexical.mark '(' + Lexical.unit) "+.5".toList := by
  have htokens : tokenize "-\\61 b+.5" = .ok
      [⟨.ident "-\\61 b", "-\\61 b", ⟨1, 1, 0⟩⟩, ⟨.number "+.5", "+.5", ⟨1, 7, 6⟩⟩,
        ⟨.eof, "", ⟨1, 10, 9⟩⟩] := by
    decide +kernel
  exact ⟨htokens, isGrammatical_of_tokenize htokens List.mem_cons_self⟩

end Token
end Stylesheet
