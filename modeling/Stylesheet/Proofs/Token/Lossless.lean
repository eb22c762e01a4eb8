import Mathlib.Data.List.TakeWhile
import Stylesheet.Proofs.Token.Spelling
import Stylesheet.Proofs.Token.Tiling

/-!
# Lossless tokens

Main statement: what a source holds in the span of a token is the spelling of the token's kind.
Only whitespace, and unquoted addresses with the spaces around their content, leave a choice, and
no two tokens of whitespace stand side by side.
-/

namespace Stylesheet

/-- What a source holds from one offset to another. -/
def slice (source : List Char) (start stop : Nat) : List Char :=
  (source.drop start).take (stop - start)

theorem slice_append (front text back : List Char) :
    slice (front ++ text ++ back) front.length (front.length + text.length) = text := by
  unfold slice
  rw [List.append_assoc, List.drop_left, Nat.add_sub_cancel_left, List.take_left]

namespace TokenKind

open Character

/-- A spelling of an unquoted address: the word `url` in any case, and spaces around the content. -/
inductive IsAddress (content : String) : List Char -> Prop
  | mk {name before after : List Char} (hname : sameWord (String.ofList name) "url" = true)
      (hbefore : forall c, c ∈ before -> isSpace c = true)
      (hafter : forall c, c ∈ after -> isSpace c = true) :
      IsAddress content (name ++ ['('] ++ before ++ content.toList ++ after ++ [')'])

/-- The characters that a token of this kind may cover. -/
def Spells (kind : TokenKind) (text : List Char) : Prop :=
  match kind with
  | whitespace => text ≠ [] ∧ forall c, c ∈ text -> isSpace c = true
  | url content => IsAddress content text
  | kind => kind.spelling? = some (String.ofList text)

theorem spells_of_spelling? {kind : TokenKind} {text : List Char}
    (h : kind.spelling? = some (String.ofList text)) : kind.Spells text := by
  cases kind with
  | whitespace => cases h
  | url => cases h
  | _ => exact h

end TokenKind

namespace Lexeme

open Character

theorem IsSpelled.spells {lexeme : Lexeme} (h : lexeme.IsSpelled)
    (hsome : lexeme.kind.spelling?.isSome = true) : lexeme.kind.Spells lexeme.text := by
  rcases Option.isSome_iff_exists.mp hsome with ⟨spelling, hspelling⟩
  apply TokenKind.spells_of_spelling?
  rw [hspelling, h spelling hspelling]

theorem spelling?_isSome_of_isNumeric {kind : TokenKind} (h : kind.isNumeric = true) :
    kind.spelling?.isSome = true := by
  cases kind with
  | number | percentage | dimension => rfl
  | _ => cases h

/-- The spaces behind the content of an unquoted address are spaces. -/
theorem isSpace_of_splitAddress {text : List Char} {address : Address}
    (h : splitAddress text = .ok address) : forall c, c ∈ address.spaces -> isSpace c = true := by
  fun_induction splitAddress text generalizing address with
  | case1 => cases h
  | case2 d rest _ ih =>
      rcases extend_eq_ok h with ⟨inner, hinner, rfl⟩
      have hspaces := ih hinner
      exact hspaces
  | case3 d rest _ ih =>
      rcases extend_eq_ok h with ⟨inner, hinner, rfl⟩
      have hspaces := ih hinner
      exact hspaces
  | case4 c rest =>
      cases h
      intro d hmem
      cases hmem
  | case5 c rest _ _ hspace after heq =>
      cases h
      intro d hmem
      rcases List.mem_cons.mp hmem with rfl | hmem
      · exact hspace
      · exact List.mem_takeWhile_imp hmem
  | case6 => cases h
  | case7 c rest _ _ _ ih =>
      rcases extend_eq_ok h with ⟨inner, hinner, rfl⟩
      have hspaces := ih hinner
      exact hspaces

theorem spells_named {text : List Char} {lexeme : Lexeme} (h : named text = .ok lexeme) :
    lexeme.kind.Spells lexeme.text := by
  cases names_of_named h with
  | ident => exact TokenKind.spells_of_spelling? rfl
  | function =>
      apply TokenKind.spells_of_spelling?
      rw [String.ofList_append]
      rfl
  | @url name arguments address hsplit hword hquoted haddress =>
      have hbefore : forall c, c ∈ arguments.takeWhile isSpace -> isSpace c = true :=
        fun _ => List.mem_takeWhile_imp
      have hspells : TokenKind.IsAddress (String.ofList address.content) _ :=
        .mk hword hbefore (isSpace_of_splitAddress haddress)
      rw [String.toList_ofList] at hspells
      exact hspells

theorem spells_of_read {c : Char} {rest : List Char} {lexeme : Lexeme}
    (h : read c rest = .ok lexeme) : lexeme.kind.Spells lexeme.text := by
  have hspelled := isSpelled_of_read h
  cases isRead_of_read h with
  | whitespace hspace =>
      constructor
      · exact List.cons_ne_nil _ _
      · intro d hmem
        rcases List.mem_cons.mp hmem with rfl | hmem
        · exact hspace
        · exact List.mem_takeWhile_imp hmem
  | punctuation hkind => exact TokenKind.spells_of_spelling? (spelling?_punctuation? hkind)
  | numeric => exact hspelled.spells (spelling?_isSome_of_isNumeric (isNumeric_numeric _))
  | named hstarts hnamed => exact spells_named hnamed
  | _ => exact hspelled.spells rfl

/-- Whitespace begins with a space. -/
theorem isSpace_of_read {c : Char} {rest : List Char} {lexeme : Lexeme}
    (h : read c rest = .ok lexeme) (hkind : lexeme.kind = .whitespace) : isSpace c = true := by
  have hspells := spells_of_read h
  rw [hkind] at hspells
  rcases List.exists_cons_of_ne_nil hspells.1 with ⟨d, more, htext⟩
  have happend := read_append h
  rw [htext, List.cons_append, List.cons.injEq] at happend
  rw [htext] at hspells
  rw [← happend.1]
  exact hspells.2 d List.mem_cons_self

/-- Whitespace takes every space that stands at the front of a text. -/
theorem rest_of_read_whitespace {c : Char} {rest : List Char} {lexeme : Lexeme}
    (h : read c rest = .ok lexeme) (hkind : lexeme.kind = .whitespace) :
    lexeme.rest = rest.dropWhile isSpace := by
  have hspace := isSpace_of_read h hkind
  unfold read at h
  rw [if_pos hspace] at h
  cases h
  rfl

end Lexeme

namespace Token

open Character

/--
Tokens keep every character of their source: each covers a spelling of its kind, and whitespace
is followed by no more whitespace.
-/
structure Lossless (source : List Char) (tokens : List Token) : Prop where
  spells : forall token, token ∈ tokens ->
    token.kind.Spells (slice source token.start.offset token.stop.offset)
  apart : tokens.IsChain fun left right => left.kind = .whitespace -> right.kind ≠ .whitespace

namespace Scan

variable {position : Position} {text : List Char} {tokens : List Token}

theorem spells (h : Scan position text tokens) {token : Token} (hmem : token ∈ tokens) :
    token.kind.Spells token.text.toList := by
  induction h with
  | done position =>
      rcases List.mem_singleton.mp hmem with rfl
      exact TokenKind.spells_of_spelling? rfl
  | step hread hscan ih =>
      rcases List.mem_cons.mp hmem with rfl | hmem
      · rw [String.toList_ofList]
        exact Lexeme.spells_of_read hread
      · exact ih hmem

/-- The text of a token is what its source holds between its ends. -/
theorem slice_eq {source : List Char} (h : Scan .start source tokens) {token : Token}
    (hmem : token ∈ tokens) :
    slice source token.start.offset token.stop.offset = token.text.toList := by
  rcases h.occurs hmem with ⟨front, back, hsource, hstart⟩
  have hoffset : token.start.offset = front.length := by
    rw [hstart, Position.offset_after]
    exact Nat.zero_add _
  have hstop : token.stop.offset = front.length + token.text.toList.length := by
    rw [stop, Position.offset_after, hoffset]
  rw [hoffset, hstop, ← hsource, slice_append]

theorem kind_ne_whitespace_of_dropWhile (h : Scan position (text.dropWhile isSpace) tokens) :
    forall first, tokens.head? = some first -> first.kind ≠ .whitespace := by
  intro first hfirst hkind
  generalize hbehind : text.dropWhile isSpace = behind at h
  cases h with
  | done position =>
      cases hfirst
      cases hkind
  | @step position c rest lexeme tokens hread hscan =>
      cases hfirst
      have hhead := List.head?_dropWhile_not isSpace text
      rw [hbehind] at hhead
      simp only [List.head?_cons] at hhead
      rw [Lexeme.isSpace_of_read hread hkind] at hhead
      cases hhead

theorem apart (h : Scan position text tokens) :
    tokens.IsChain fun left right => left.kind = .whitespace -> right.kind ≠ .whitespace := by
  induction h with
  | done position => exact List.IsChain.singleton _
  | @step position c rest lexeme tokens hread hscan ih =>
      rcases hscan.head?_start with ⟨first, hfirst, _⟩
      rcases List.head?_eq_some_iff.mp hfirst with ⟨later, rfl⟩
      apply List.IsChain.cons_cons _ ih
      intro hkind
      rw [Lexeme.rest_of_read_whitespace hread hkind] at hscan
      exact hscan.kind_ne_whitespace_of_dropWhile first rfl

end Scan

theorem lossless_of_tokenize {source : String} {tokens : List Token}
    (h : tokenize source = .ok tokens) : Lossless source.toList tokens := by
  have hscan := scan_of_scanFrom h
  constructor
  · intro token hmem
    rw [hscan.slice_eq hmem]
    exact hscan.spells hmem
  · exact hscan.apart

/-- An exponent, a space and a digit at the end of an escape, and a range of seven digits. -/
theorem lossless_numerals_and_escapes :
    tokenize "1e+2e\\61 b url( c ) U+1234567" = .ok
        [⟨.dimension "1e+2" "e\\61 b", "1e+2e\\61 b", ⟨1, 1, 0⟩⟩, ⟨.whitespace, " ", ⟨1, 11, 10⟩⟩,
          ⟨.url "c", "url( c )", ⟨1, 12, 11⟩⟩, ⟨.whitespace, " ", ⟨1, 20, 19⟩⟩,
          ⟨.unicodeRange "U+123456", "U+123456", ⟨1, 21, 20⟩⟩, ⟨.number "7", "7", ⟨1, 29, 28⟩⟩,
          ⟨.eof, "", ⟨1, 30, 29⟩⟩] ∧
      Lossless "1e+2e\\61 b url( c ) U+1234567".toList
        [⟨.dimension "1e+2" "e\\61 b", "1e+2e\\61 b", ⟨1, 1, 0⟩⟩, ⟨.whitespace, " ", ⟨1, 11, 10⟩⟩,
          ⟨.url "c", "url( c )", ⟨1, 12, 11⟩⟩, ⟨.whitespace, " ", ⟨1, 20, 19⟩⟩,
          ⟨.unicodeRange "U+123456", "U+123456", ⟨1, 21, 20⟩⟩, ⟨.number "7", "7", ⟨1, 29, 28⟩⟩,
          ⟨.eof, "", ⟨1, 30, 29⟩⟩] := by
  have htokens : tokenize "1e+2e\\61 b url( c ) U+1234567" = .ok
      [⟨.dimension "1e+2" "e\\61 b", "1e+2e\\61 b", ⟨1, 1, 0⟩⟩, ⟨.whitespace, " ", ⟨1, 11, 10⟩⟩,
        ⟨.url "c", "url( c )", ⟨1, 12, 11⟩⟩, ⟨.whitespace, " ", ⟨1, 20, 19⟩⟩,
        ⟨.unicodeRange "U+123456", "U+123456", ⟨1, 21, 20⟩⟩, ⟨.number "7", "7", ⟨1, 29, 28⟩⟩,
        ⟨.eof, "", ⟨1, 30, 29⟩⟩] := by
    decide +kernel
  exact ⟨htokens, lossless_of_tokenize htokens⟩

end Token
end Stylesheet
