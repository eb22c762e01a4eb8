import Stylesheet.Token.Lexeme

/-!
# Token streams

`tokenize` cuts a source into lexemes from its first character to its last and closes
the list with a token for the end of the source.  Main statement: a lexeme and what
follows it are the text it was read from, and no lexeme is empty, so every step of the
loop consumes characters and none is lost.
-/

namespace Stylesheet

/-- A source that has no tokens: why, and where. -/
structure LexError where
  fault : LexFault
  position : Position
deriving DecidableEq, Repr

namespace LexFault

/-- The wording of a fault. -/
def text : LexFault -> String
  | unterminatedString => "Unterminated string"
  | unterminatedComment => "Unterminated comment"
  | unterminatedUrl => "Unterminated url"
  | spaceInUrl => "Unexpected whitespace in url"

end LexFault

namespace LexError

def message (error : LexError) : String :=
  s!"Lexer error at line {error.position.line}, column {error.position.column}: {error.fault.text}"

end LexError

namespace Lexeme

open Character

/-! ## No lexeme loses a character -/

theorem splitString?_append {quote : Char} {text body after : List Char}
    (h : splitString? quote text = some (body, after)) : body ++ after = text := by
  fun_induction splitString? quote text generalizing body after with
  | case1 => simp at h
  | case2 c rest ih =>
      obtain ⟨⟨inner, tail⟩, hinner, heq⟩ := Option.map_eq_some_iff.mp h
      cases heq
      simp [ih hinner]
  | case3 => simp at h
  | case4 c rest =>
      simp only [Option.some.injEq, Prod.mk.injEq] at h
      obtain ⟨rfl, rfl⟩ := h
      rfl
  | case5 c rest _ _ _ ih =>
      obtain ⟨⟨inner, tail⟩, hinner, heq⟩ := Option.map_eq_some_iff.mp h
      cases heq
      simp [ih hinner]

theorem splitComment?_append {text content after : List Char}
    (h : splitComment? text = some (content, after)) :
    content ++ '*' :: '/' :: after = text := by
  fun_induction splitComment? text generalizing content after with
  | case1 => simp at h
  | case2 rest =>
      simp only [Option.some.injEq, Prod.mk.injEq] at h
      obtain ⟨rfl, rfl⟩ := h
      rfl
  | case3 c rest _ ih =>
      obtain ⟨⟨inner, tail⟩, hinner, heq⟩ := Option.map_eq_some_iff.mp h
      cases heq
      simp [ih hinner]

theorem extend_eq_ok {front : List Char} {result : Except LexFailure Address}
    {address : Address} (h : Address.extend front result = .ok address) :
    ∃ inner, result = .ok inner ∧ address = { inner with content := front ++ inner.content } := by
  unfold Address.extend at h
  split at h
  · cases h
    exact ⟨_, rfl, rfl⟩
  · cases h
  · cases h

theorem splitAddress_append {text : List Char} {address : Address}
    (h : splitAddress text = .ok address) :
    address.content ++ address.spaces ++ ')' :: address.rest = text := by
  fun_induction splitAddress text generalizing address with
  | case1 => cases h
  | case2 d rest _ ih =>
      obtain ⟨inner, hinner, rfl⟩ := extend_eq_ok h
      simpa using ih hinner
  | case3 d rest _ ih =>
      obtain ⟨inner, hinner, rfl⟩ := extend_eq_ok h
      simpa using ih hinner
  | case4 c rest _ hc =>
      cases h
      simp_all
  | case5 c rest _ _ _ after heq =>
      cases h
      simp only [List.nil_append, List.cons_append]
      rw [← heq, List.takeWhile_append_dropWhile]
  | case6 => cases h
  | case7 c rest _ _ _ ih =>
      obtain ⟨inner, hinner, rfl⟩ := extend_eq_ok h
      simpa using ih hinner

theorem numeric_append (text : List Char) : (numeric text).text ++ (numeric text).rest = text := by
  have hvalue := Numeral.split_append text
  simp only [numeric]
  split
  · rw [List.append_assoc, Name.split_append, hvalue]
  · split
    · rename_i heq
      simp only [List.append_assoc, List.cons_append, List.nil_append]
      rw [← heq, hvalue]
    · exact hvalue

theorem marked_append (mark : Char) (kind : String -> TokenKind) (text : List Char) :
    (marked mark kind text).text ++ (marked mark kind text).rest = mark :: text := by
  simp [marked, Name.split_append]

theorem splitUpToSix_append (p : Char -> Bool) (text : List Char) :
    (splitUpToSix p text).1 ++ (splitUpToSix p text).2 = text :=
  Name.takeWhile_take_append_drop p 6 text

theorem splitRangeEnd_append (text : List Char) :
    (splitRangeEnd text).1 ++ (splitRangeEnd text).2 = text := by
  unfold splitRangeEnd
  split
  · split
    · simp [splitUpToSix_append]
    · rfl
  · rfl

theorem range_append (letter : Char) (text : List Char) :
    (range letter text).text ++ (range letter text).rest = letter :: '+' :: text := by
  simp [range, splitRangeEnd_append, splitUpToSix_append]

theorem named_append {text : List Char} {lexeme : Lexeme} (h : named text = .ok lexeme) :
    lexeme.text ++ lexeme.rest = text := by
  have hname := Name.split_append text
  simp only [named] at h
  split at h
  · rename_i rest arguments hrest
    rw [hrest] at hname
    split at h
    · split at h
      · rename_i address haddress
        cases h
        have := splitAddress_append haddress
        simp only [List.append_assoc, List.cons_append, List.nil_append] at this ⊢
        rw [this, List.takeWhile_append_dropWhile, hname]
      · cases h
      · cases h
    · cases h
      simpa using hname
  · cases h
    exact hname

/-- A lexeme and what follows it are the text it was read from. -/
theorem read_append {c : Char} {rest : List Char} {lexeme : Lexeme}
    (h : read c rest = .ok lexeme) : lexeme.text ++ lexeme.rest = c :: rest := by
  cases isRead_of_read h with
  | whitespace => simp [List.takeWhile_append_dropWhile]
  | comment hc hrest hsplit =>
      subst hc hrest
      simpa using splitComment?_append hsplit
  | string hquote hsplit => simpa using splitString?_append hsplit
  | hash hc =>
      subst hc
      exact marked_append ..
  | punctuation => rfl
  | cdo hc hrest =>
      subst hc hrest
      rfl
  | numeric => exact numeric_append _
  | cdc hc hrest =>
      subst hc hrest
      rfl
  | atKeyword hc =>
      subst hc
      exact marked_append ..
  | range hc hrest =>
      subst hrest
      exact range_append ..
  | named hstarts hnamed => exact named_append hnamed
  | delim => rfl

/-- No lexeme is empty. -/
theorem read_text_ne_nil {c : Char} {rest : List Char} {lexeme : Lexeme}
    (h : read c rest = .ok lexeme) : lexeme.text ≠ [] := by
  cases isRead_of_read h with
  | numeric hstarts =>
      have := Numeral.split_ne_nil_of_starts hstarts
      simp only [numeric]
      split
      · simp [this]
      · split <;> simp [this]
  | named hstarts hnamed =>
      have := Name.split_ne_nil_of_startsIdent hstarts
      simp only [named] at hnamed
      split at hnamed
      · split at hnamed
        · split at hnamed <;> cases hnamed
          simp
        · cases hnamed
          simp
      · cases hnamed
        exact this
  | _ => simp [marked, range]

theorem read_rest_length_le {c : Char} {rest : List Char} {lexeme : Lexeme}
    (h : read c rest = .ok lexeme) : lexeme.rest.length ≤ rest.length := by
  have happend := congrArg List.length (read_append h)
  have hpos := List.length_pos_iff.mpr (read_text_ne_nil h)
  simp only [List.length_append, List.length_cons] at happend
  omega

end Lexeme

namespace Token

/-- The tokens of a text that begins at a position. -/
def scanFrom (position : Position) : List Char -> Except LexError (List Token)
  | [] => .ok [⟨.eof, "", position⟩]
  | c :: rest =>
      match _h : Lexeme.read c rest with
      | .error failure => .error ⟨failure.fault, position.after failure.read⟩
      | .ok lexeme =>
          match scanFrom (position.after lexeme.text) lexeme.rest with
          | .error error => .error error
          | .ok tokens => .ok (⟨lexeme.kind, String.ofList lexeme.text, position⟩ :: tokens)
termination_by text => text.length
decreasing_by exact Nat.lt_succ_of_le (Lexeme.read_rest_length_le _h)

end Token

/-- The tokens of a source, the last of which is its end. -/
def tokenize (source : String) : Except LexError (List Token) :=
  Token.scanFrom .start source.toList

end Stylesheet
