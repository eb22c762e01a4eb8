import Stylesheet.Token.Basic
import Stylesheet.Token.Name
import Stylesheet.Token.Numeral

/-!
# Lexemes

A lexeme is the token at the front of a text together with what follows it.  Each kind
of lexeme that reaches further than one character has a splitting function of its own;
`Lexeme.read` looks at the first characters and chooses between them.  Only strings,
comments and unquoted addresses can fail, because only they have to be closed.
-/

namespace Stylesheet

/-- Why no token could be read. -/
inductive LexFault where
  | unterminatedString
  | unterminatedComment
  | unterminatedUrl
  | spaceInUrl
deriving DecidableEq, Repr

/-- The token at the front of a text: its kind, its characters and the rest of the text. -/
structure Lexeme where
  kind : TokenKind
  text : List Char
  rest : List Char
deriving DecidableEq, Repr

/-- A failed token: why, and how much of it stands before the place to report. -/
structure LexFailure where
  fault : LexFault
  read : List Char
deriving DecidableEq, Repr

namespace Lexeme

open Character

/-! ## Strings and comments -/

/--
What follows an opening quote, up to and including the same quote.  A backslash takes
the next character with it, whatever it is; a bare line feed leaves the string open.
-/
def splitString? (quote : Char) : List Char -> Option (List Char × List Char)
  | [] => none
  | '\\' :: c :: rest =>
      (splitString? quote rest).map fun (body, after) => ('\\' :: c :: body, after)
  | c :: rest =>
      if c == '\n' || c == '\\' then
        none
      else if c == quote then
        some ([c], rest)
      else
        (splitString? quote rest).map fun (body, after) => (c :: body, after)

/-- The content of a comment, and what follows its end. -/
def splitComment? : List Char -> Option (List Char × List Char)
  | [] => none
  | '*' :: '/' :: rest => some ([], rest)
  | c :: rest => (splitComment? rest).map fun (content, after) => (c :: content, after)

/-! ## Unquoted addresses -/

/-- An unquoted address: its content, the spaces behind it, and what follows its parenthesis. -/
structure Address where
  content : List Char
  spaces : List Char
  rest : List Char

/-- Puts characters in front of an address, or in front of what was read of a broken one. -/
def Address.extend (front : List Char) : Except LexFailure Address -> Except LexFailure Address
  | .ok address => .ok { address with content := front ++ address.content }
  | .error ⟨.spaceInUrl, read⟩ => .error ⟨.spaceInUrl, front ++ read⟩
  | .error failure => .error failure

/--
An address behind its leading spaces.  An escape takes the next character with it;
spaces are allowed only directly before the closing parenthesis.
-/
def splitAddress : List Char -> Except LexFailure Address
  | [] => .error ⟨.unterminatedUrl, []⟩
  | '\\' :: d :: rest =>
      if d == '\n' then
        Address.extend ['\\'] (splitAddress (d :: rest))
      else
        Address.extend ['\\', d] (splitAddress rest)
  | c :: rest =>
      if c == ')' then
        .ok ⟨[], [], rest⟩
      else if isSpace c then
        match rest.dropWhile isSpace with
        | ')' :: after => .ok ⟨[], c :: rest.takeWhile isSpace, after⟩
        | _ => .error ⟨.spaceInUrl, c :: rest.takeWhile isSpace⟩
      else
        Address.extend [c] (splitAddress rest)

/-! ## Tokens that begin with a name or a numeral -/

/-- A numeral with the percent sign or the unit behind it. -/
def numeric (text : List Char) : Lexeme :=
  let (value, rest) := Numeral.split text
  if Name.startsIdent rest then
    let (unit, after) := Name.split rest
    ⟨.dimension (String.ofList value) (String.ofList unit), value ++ unit, after⟩
  else
    match rest with
    | '%' :: after => ⟨.percentage (String.ofList value), value ++ ['%'], after⟩
    | _ => ⟨.number (String.ofList value), value, rest⟩

/-- Whether a text holds a quoted address: spaces and then a quote. -/
def startsQuotedAddress (text : List Char) : Bool :=
  match text.dropWhile isSpace with
  | c :: _ => isQuote c
  | [] => false

/-- An identifier, the opening of a function, or a whole unquoted address. -/
def named (text : List Char) : Except LexFailure Lexeme :=
  let (name, rest) := Name.split text
  match rest with
  | '(' :: arguments =>
      let opening := name ++ ['(']
      if sameWord (String.ofList name) "url" && !startsQuotedAddress arguments then
        let spaces := arguments.takeWhile isSpace
        match splitAddress (arguments.dropWhile isSpace) with
        | .ok address =>
            .ok ⟨.url (String.ofList address.content),
              opening ++ spaces ++ address.content ++ address.spaces ++ [')'], address.rest⟩
        | .error ⟨.spaceInUrl, read⟩ => .error ⟨.spaceInUrl, opening ++ spaces ++ read⟩
        | .error failure => .error failure
      else
        .ok ⟨.function (String.ofList name), opening, arguments⟩
  | _ => .ok ⟨.ident (String.ofList name), name, rest⟩

/-! ## Unicode ranges -/

/-- A hexadecimal digit or the question mark that stands for any. -/
def isRangeDigit (c : Char) : Bool :=
  isHexDigit c || c == '?'

/-- Up to six characters at the front of a text that pass a test, and what follows. -/
def splitUpToSix (p : Char -> Bool) (text : List Char) : List Char × List Char :=
  let front := (text.take 6).takeWhile p
  (front, text.drop front.length)

/-- The upper end of a range: a hyphen before at least one hexadecimal digit. -/
def splitRangeEnd : List Char -> List Char × List Char
  | '-' :: d :: rest =>
      if isHexDigit d then
        let (digits, after) := splitUpToSix isHexDigit (d :: rest)
        ('-' :: digits, after)
      else
        ([], '-' :: d :: rest)
  | text => ([], text)

/-- A range whose letter is given and whose plus sign has been passed. -/
def range (letter : Char) (text : List Char) : Lexeme :=
  let (first, more) := splitUpToSix isRangeDigit text
  let (last, rest) := splitRangeEnd more
  let whole := letter :: '+' :: first ++ last
  ⟨.unicodeRange (String.ofList whole), whole, rest⟩

/-- Whether a text behind a letter `u` makes it a range. -/
def startsRange : List Char -> Bool
  | '+' :: c :: _ => isRangeDigit c
  | _ => false

/-! ## The choice -/

/-- The tokens that are one character whatever stands around it. -/
def punctuation? : Char -> Option TokenKind
  | '(' => some .leftParen
  | ')' => some .rightParen
  | '[' => some .leftBracket
  | ']' => some .rightBracket
  | '\x7b' => some .leftBrace
  | '\x7d' => some .rightBrace
  | ':' => some .colon
  | ';' => some .semicolon
  | ',' => some .comma
  | _ => none

/-- A name behind a number sign or an at sign. -/
def marked (mark : Char) (kind : String -> TokenKind) (text : List Char) : Lexeme :=
  let (name, rest) := Name.split text
  ⟨kind (String.ofList name), mark :: name, rest⟩

/-- The token that begins with a character, in front of the rest of the text. -/
def read (c : Char) (rest : List Char) : Except LexFailure Lexeme :=
  if isSpace c then
    .ok ⟨.whitespace, c :: rest.takeWhile isSpace, rest.dropWhile isSpace⟩
  else if c == '/' && ['*'].isPrefixOf rest then
    match splitComment? (rest.drop 1) with
    | some (content, after) =>
        .ok ⟨.comment (String.ofList content), '/' :: '*' :: content ++ ['*', '/'], after⟩
    | none => .error ⟨.unterminatedComment, []⟩
  else if isQuote c then
    match splitString? c rest with
    | some (body, after) => .ok ⟨.string (String.ofList (c :: body)), c :: body, after⟩
    | none => .error ⟨.unterminatedString, []⟩
  else if c == '#' && (Name.splitUnit? rest).isSome then
    .ok (marked c .hash rest)
  else if let some kind := punctuation? c then
    .ok ⟨kind, [c], rest⟩
  else if c == '<' && ['!', '-', '-'].isPrefixOf rest then
    .ok ⟨.cdo, ['<', '!', '-', '-'], rest.drop 3⟩
  else if Numeral.starts (c :: rest) then
    .ok (numeric (c :: rest))
  else if c == '-' && ['-', '>'].isPrefixOf rest then
    .ok ⟨.cdc, ['-', '-', '>'], rest.drop 2⟩
  else if c == '@' && Name.startsIdent rest then
    .ok (marked c .atKeyword rest)
  else if (c == 'u' || c == 'U') && startsRange rest then
    .ok (range c (rest.drop 1))
  else if Name.startsIdent (c :: rest) then
    named (c :: rest)
  else
    .ok ⟨.delim c, [c], rest⟩

/--
Which lexeme begins with a character, branch by branch, with what each branch knows of the
character and the text behind it.
-/
inductive IsRead (c : Char) (rest : List Char) : Lexeme -> Prop
  | whitespace (hspace : isSpace c = true) :
      IsRead c rest ⟨.whitespace, c :: rest.takeWhile isSpace, rest.dropWhile isSpace⟩
  | comment {behind content after : List Char} (hc : c = '/') (hrest : rest = '*' :: behind)
      (hsplit : splitComment? behind = some (content, after)) :
      IsRead c rest
        ⟨.comment (String.ofList content), '/' :: '*' :: content ++ ['*', '/'], after⟩
  | string {body after : List Char} (hquote : isQuote c = true)
      (hsplit : splitString? c rest = some (body, after)) :
      IsRead c rest ⟨.string (String.ofList (c :: body)), c :: body, after⟩
  | hash (hc : c = '#') (hunit : (Name.splitUnit? rest).isSome = true) :
      IsRead c rest (marked '#' .hash rest)
  | punctuation {kind : TokenKind} (hkind : punctuation? c = some kind) :
      IsRead c rest ⟨kind, [c], rest⟩
  | cdo {behind : List Char} (hc : c = '<') (hrest : rest = '!' :: '-' :: '-' :: behind) :
      IsRead c rest ⟨.cdo, ['<', '!', '-', '-'], behind⟩
  | numeric (hstarts : Numeral.starts (c :: rest) = true) : IsRead c rest (numeric (c :: rest))
  | cdc {behind : List Char} (hc : c = '-') (hrest : rest = '-' :: '>' :: behind) :
      IsRead c rest ⟨.cdc, ['-', '-', '>'], behind⟩
  | atKeyword (hc : c = '@') (hstarts : Name.startsIdent rest = true) :
      IsRead c rest (marked '@' .atKeyword rest)
  | range {behind : List Char} (hc : c = 'u' ∨ c = 'U') (hrest : rest = '+' :: behind)
      (hstarts : startsRange rest = true) : IsRead c rest (range c behind)
  | named {lexeme : Lexeme} (hstarts : Name.startsIdent (c :: rest) = true)
      (hnamed : named (c :: rest) = .ok lexeme) : IsRead c rest lexeme
  | delim : IsRead c rest ⟨.delim c, [c], rest⟩

theorem isRead_of_read {c : Char} {rest : List Char} {lexeme : Lexeme}
    (h : read c rest = .ok lexeme) : IsRead c rest lexeme := by
  have hmark : forall {mark : Char} {front : List Char},
      (c == mark && front.isPrefixOf rest) = true -> c = mark ∧ ∃ behind, rest = front ++ behind := by
    intro mark front h
    rw [Bool.and_eq_true, beq_iff_eq, List.isPrefixOf_iff_prefix] at h
    exact ⟨h.1, h.2.imp fun _ h => h.symm⟩
  unfold read at h
  by_cases hspace : isSpace c = true
  · rw [if_pos hspace] at h
    cases h
    exact .whitespace hspace
  rw [if_neg hspace] at h
  by_cases hcomment : (c == '/' && ['*'].isPrefixOf rest) = true
  · rw [if_pos hcomment] at h
    obtain ⟨hc, behind, hrest⟩ := hmark hcomment
    rw [hrest] at h
    split at h
    · cases h
      exact .comment hc hrest ‹_›
    · cases h
  rw [if_neg hcomment] at h
  by_cases hquote : isQuote c = true
  · rw [if_pos hquote] at h
    split at h
    · cases h
      exact .string hquote ‹_›
    · cases h
  rw [if_neg hquote] at h
  by_cases hhash : (c == '#' && (Name.splitUnit? rest).isSome) = true
  · rw [if_pos hhash] at h
    rw [Bool.and_eq_true, beq_iff_eq] at hhash
    obtain ⟨rfl, hunit⟩ := hhash
    cases h
    exact .hash rfl hunit
  rw [if_neg hhash] at h
  cases hkind : punctuation? c with
  | some kind =>
      rw [hkind] at h
      cases h
      exact .punctuation hkind
  | none =>
      rw [hkind] at h
      by_cases hcdo : (c == '<' && ['!', '-', '-'].isPrefixOf rest) = true
      · obtain ⟨hc, behind, hrest⟩ := hmark hcdo
        rw [if_pos hcdo, hrest] at h
        cases h
        exact .cdo hc hrest
      rw [if_neg hcdo] at h
      by_cases hstarts : Numeral.starts (c :: rest) = true
      · rw [if_pos hstarts] at h
        cases h
        exact .numeric hstarts
      rw [if_neg hstarts] at h
      by_cases hcdc : (c == '-' && ['-', '>'].isPrefixOf rest) = true
      · obtain ⟨hc, behind, hrest⟩ := hmark hcdc
        rw [if_pos hcdc, hrest] at h
        cases h
        exact .cdc hc hrest
      rw [if_neg hcdc] at h
      by_cases hkeyword : (c == '@' && Name.startsIdent rest) = true
      · rw [if_pos hkeyword] at h
        rw [Bool.and_eq_true, beq_iff_eq] at hkeyword
        obtain ⟨rfl, hident⟩ := hkeyword
        cases h
        exact .atKeyword rfl hident
      rw [if_neg hkeyword] at h
      by_cases hrange : ((c == 'u' || c == 'U') && startsRange rest) = true
      · rw [if_pos hrange] at h
        simp only [Bool.and_eq_true, Bool.or_eq_true, beq_iff_eq] at hrange
        obtain ⟨hc, hrange⟩ := hrange
        have hplus : ∃ behind, rest = '+' :: behind := by
          unfold startsRange at hrange
          split at hrange
          · exact ⟨_, rfl⟩
          · cases hrange
        obtain ⟨behind, hrest⟩ := hplus
        cases h
        rw [show rest.drop 1 = behind by rw [hrest]; rfl]
        exact .range hc hrest hrange
      rw [if_neg hrange] at h
      by_cases hident : Name.startsIdent (c :: rest) = true
      · rw [if_pos hident] at h
        exact .named hident h
      · rw [if_neg hident] at h
        cases h
        exact .delim

end Lexeme
end Stylesheet
