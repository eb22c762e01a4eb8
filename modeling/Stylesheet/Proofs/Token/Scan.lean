import Stylesheet.Proofs.Token.Named
import Stylesheet.Token.Stream

/-!
# Scanning as a derivation

`Token.Scan` says how a list of tokens comes about: lexeme after lexeme, and the end of
the source at the end.  It is the loop of `Token.scanFrom` without its failures, so facts
about all token lists are inductions over it.
-/

namespace Stylesheet

namespace TokenKind

/-- The kinds of tokens that are one character whatever stands around it. -/
def isPunctuation : TokenKind -> Bool
  | leftParen | rightParen | leftBracket | rightBracket | leftBrace | rightBrace => true
  | colon | semicolon | comma => true
  | _ => false

/-- The kinds of tokens that begin with a numeral. -/
def isNumeric : TokenKind -> Bool
  | number _ | percentage _ | dimension _ _ => true
  | _ => false

/-- The kinds of tokens that begin with a name. -/
def isNamed : TokenKind -> Bool
  | ident _ | function _ | url _ => true
  | _ => false

end TokenKind

namespace Lexeme

open Character

theorem isPunctuation_of_punctuation? {c : Char} {kind : TokenKind}
    (h : punctuation? c = some kind) : kind.isPunctuation = true := by
  unfold punctuation? at h
  split at h <;> cases h <;> rfl

theorem read_of_punctuation? {c : Char} {kind : TokenKind} (h : punctuation? c = some kind)
    (rest : List Char) : read c rest = .ok ⟨kind, [c], rest⟩ := by
  unfold punctuation? at h
  split at h <;> cases h <;> rfl

theorem isNumeric_numeric (text : List Char) : (numeric text).kind.isNumeric = true := by
  simp only [numeric]
  split
  · rfl
  · split <;> rfl

theorem isNamed_of_named {text : List Char} {lexeme : Lexeme} (h : named text = .ok lexeme) :
    lexeme.kind.isNamed = true := by
  cases names_of_named h <;> rfl

section Kinds

variable {kind : TokenKind}

theorem ne_of_punctuation? {c : Char} {mark : TokenKind} (h : punctuation? c = some mark)
    (hkind : kind.isPunctuation = false) : mark ≠ kind := by
  rintro rfl
  rw [isPunctuation_of_punctuation? h] at hkind
  cases hkind

theorem numeric_kind_ne (text : List Char) (hkind : kind.isNumeric = false) :
    (numeric text).kind ≠ kind := by
  rintro rfl
  rw [isNumeric_numeric] at hkind
  cases hkind

theorem named_kind_ne {text : List Char} {lexeme : Lexeme} (h : named text = .ok lexeme)
    (hkind : kind.isNamed = false) : lexeme.kind ≠ kind := by
  rintro rfl
  rw [isNamed_of_named h] at hkind
  cases hkind

end Kinds

/-- The end of the source is no lexeme. -/
theorem read_kind_ne_eof {c : Char} {rest : List Char} {lexeme : Lexeme}
    (h : read c rest = .ok lexeme) : lexeme.kind ≠ .eof := by
  cases isRead_of_read h with
  | punctuation hkind => exact ne_of_punctuation? hkind rfl
  | numeric => exact numeric_kind_ne _ rfl
  | named _ hnamed => exact named_kind_ne hnamed rfl
  | _ => exact TokenKind.noConfusion

end Lexeme

namespace Token

/-- The tokens of a text that begins at a position. -/
inductive Scan : Position -> List Char -> List Token -> Prop
  | done (position : Position) : Scan position [] [⟨.eof, "", position⟩]
  | step {position : Position} {c : Char} {rest : List Char} {lexeme : Lexeme}
      {tokens : List Token} (hread : Lexeme.read c rest = .ok lexeme)
      (hscan : Scan (position.after lexeme.text) lexeme.rest tokens) :
      Scan position (c :: rest) (⟨lexeme.kind, String.ofList lexeme.text, position⟩ :: tokens)

theorem scan_of_scanFrom {position : Position} {text : List Char} {tokens : List Token}
    (h : scanFrom position text = .ok tokens) : Scan position text tokens := by
  fun_induction scanFrom position text generalizing tokens with
  | case1 position =>
      cases h
      exact Scan.done position
  | case2 => cases h
  | case3 => cases h
  | case4 position c rest lexeme hread later hlater ih =>
      cases h
      exact Scan.step hread (ih hlater)

section Steps

variable {c : Char} {rest : List Char}

theorem scanFrom_of_read_error {failure : LexFailure} (h : Lexeme.read c rest = .error failure)
    (position : Position) :
    scanFrom position (c :: rest) = .error ⟨failure.fault, position.after failure.read⟩ := by
  rw [scanFrom]
  split
  · rename_i hfailed
    rw [h] at hfailed
    cases hfailed
    rfl
  · rename_i hread
    rw [h] at hread
    cases hread

theorem scanFrom_of_read {lexeme : Lexeme} (h : Lexeme.read c rest = .ok lexeme)
    (position : Position) :
    scanFrom position (c :: rest) =
      (scanFrom (position.after lexeme.text) lexeme.rest).map
        (⟨lexeme.kind, String.ofList lexeme.text, position⟩ :: ·) := by
  rw [scanFrom]
  split
  · rename_i hfailed
    rw [h] at hfailed
    cases hfailed
  · rename_i lexeme' hread
    rw [h] at hread
    cases hread
    cases scanFrom (position.after lexeme.text) lexeme.rest <;> rfl

end Steps

theorem scanFrom_of_scan {position : Position} {text : List Char} {tokens : List Token}
    (h : Scan position text tokens) : scanFrom position text = .ok tokens := by
  induction h with
  | done position => rw [scanFrom]
  | step hread hscan ih =>
      rw [scanFrom_of_read hread, ih]
      rfl

theorem scanFrom_eq_ok_iff {position : Position} {text : List Char} {tokens : List Token} :
    scanFrom position text = .ok tokens <-> Scan position text tokens :=
  ⟨scan_of_scanFrom, scanFrom_of_scan⟩

end Token

end Stylesheet
