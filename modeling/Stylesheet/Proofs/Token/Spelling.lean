import Stylesheet.Proofs.Text.Place
import Stylesheet.Proofs.Token.Scan

/-!
# Spelled tokens

Main statements: a token whose kind has one spelling is written so, and every token stands in
its source where it says that it starts, behind the tokens before it.
-/

namespace Stylesheet

namespace Lexeme

open Character

/-- A lexeme is written in the one spelling of its kind, if there is one. -/
def IsSpelled (lexeme : Lexeme) : Prop :=
  forall spelling, lexeme.kind.spelling? = some spelling ->
    String.ofList lexeme.text = spelling

theorem isSpelled_of_eq {lexeme : Lexeme}
    (h : lexeme.kind.spelling? = some (String.ofList lexeme.text)) : lexeme.IsSpelled := by
  intro spelling hspelling
  rw [h] at hspelling
  exact Option.some.inj hspelling

theorem isSpelled_of_none {lexeme : Lexeme} (h : lexeme.kind.spelling? = none) :
    lexeme.IsSpelled := by
  intro spelling hspelling
  rw [h] at hspelling
  cases hspelling

theorem isSpelled_of_toList {lexeme : Lexeme} {spelling : String}
    (hkind : lexeme.kind.spelling? = some spelling) (h : spelling.toList = lexeme.text) :
    lexeme.IsSpelled :=
  isSpelled_of_eq (by rw [hkind, ← h, String.ofList_toList])

theorem isSpelled_marked {mark : Char} {kind : String -> TokenKind} {sign : String}
    (hsign : sign.toList = [mark])
    (hkind : forall name, (kind name).spelling? = some (sign ++ name)) (text : List Char) :
    (marked mark kind text).IsSpelled := by
  refine isSpelled_of_toList (hkind _) ?_
  rw [String.toList_append, hsign, String.toList_ofList]
  rfl

theorem isSpelled_numeric (text : List Char) : (numeric text).IsSpelled := by
  simp only [numeric]
  split
  · exact isSpelled_of_eq (by rw [String.ofList_append]; rfl)
  · split
    · exact isSpelled_of_eq (by rw [String.ofList_append]; rfl)
    · exact isSpelled_of_eq rfl

theorem isSpelled_named {text : List Char} {lexeme : Lexeme} (h : named text = .ok lexeme) :
    lexeme.IsSpelled := by
  cases names_of_named h with
  | ident => exact isSpelled_of_eq rfl
  | function => exact isSpelled_of_eq (by rw [String.ofList_append]; rfl)
  | url => exact isSpelled_of_none rfl

theorem spelling?_punctuation? {c : Char} {kind : TokenKind} (h : punctuation? c = some kind) :
    kind.spelling? = some (String.ofList [c]) := by
  unfold punctuation? at h
  split at h <;> cases h <;> rfl

theorem isSpelled_of_read {c : Char} {rest : List Char} {lexeme : Lexeme}
    (h : read c rest = .ok lexeme) : lexeme.IsSpelled := by
  cases isRead_of_read h with
  | whitespace => exact isSpelled_of_none rfl
  | comment =>
      refine isSpelled_of_toList rfl ?_
      simp only [String.toList_append, String.toList_ofList]
      rfl
  | string => exact isSpelled_of_eq rfl
  | hash => exact isSpelled_marked rfl (fun _ => rfl) rest
  | punctuation hkind => exact isSpelled_of_eq (spelling?_punctuation? hkind)
  | cdo => exact isSpelled_of_eq rfl
  | numeric => exact isSpelled_numeric _
  | cdc => exact isSpelled_of_eq rfl
  | atKeyword => exact isSpelled_marked rfl (fun _ => rfl) rest
  | range => exact isSpelled_of_eq rfl
  | named hstarts hnamed => exact isSpelled_named hnamed
  | delim => exact isSpelled_of_eq rfl

end Lexeme

namespace Token

/-- A token is not empty, unless it is the end, and is written in the one spelling of its kind. -/
structure IsSpelled (token : Token) : Prop where
  text_ne_empty : token.kind ≠ .eof -> token.text ≠ ""
  spelling : forall spelling, token.kind.spelling? = some spelling -> token.text = spelling

namespace Scan

variable {position : Position} {text : List Char} {tokens : List Token}

theorem isSpelled (h : Scan position text tokens) {token : Token} (hmem : token ∈ tokens) :
    token.IsSpelled := by
  induction h with
  | done position =>
      rcases List.mem_singleton.mp hmem with rfl
      refine ⟨fun hkind => absurd rfl hkind, ?_⟩
      intro spelling hspelling
      exact Option.some.inj hspelling
  | step hread hscan ih =>
      rcases List.mem_cons.mp hmem with rfl | hmem
      · refine ⟨?_, Lexeme.isSpelled_of_read hread⟩
        intro hkind
        simpa using Lexeme.read_text_ne_nil hread
      · exact ih hmem

theorem occurs (h : Scan position text tokens) {token : Token} (hmem : token ∈ tokens) :
    exists front back, front ++ token.text.toList ++ back = text ∧
      token.start = position.after front := by
  induction h with
  | done position =>
      rcases List.mem_singleton.mp hmem with rfl
      exact ⟨[], [], rfl, rfl⟩
  | @step position c rest lexeme tokens hread hscan ih =>
      have happend := Lexeme.read_append hread
      rcases List.mem_cons.mp hmem with rfl | hmem
      · refine ⟨[], lexeme.rest, ?_, rfl⟩
        rw [String.toList_ofList]
        exact happend
      · rcases ih hmem with ⟨front, back, htext, hstart⟩
        refine ⟨lexeme.text ++ front, back, ?_, ?_⟩
        · rw [← happend, ← htext]
          simp only [List.append_assoc]
        · rw [hstart, Position.after_append]

/-- Every token starts behind something of each token before it. -/
theorem pairwise_start (h : Scan position text tokens) :
    tokens.Pairwise fun left right =>
      exists between, between ≠ [] ∧ right.start = left.start.after between := by
  induction h with
  | done position => exact List.pairwise_singleton _ _
  | @step position c rest lexeme tokens hread hscan ih =>
      refine List.pairwise_cons.mpr ⟨?_, ih⟩
      intro later hlater
      rcases hscan.occurs hlater with ⟨front, back, _, hstart⟩
      refine ⟨lexeme.text ++ front, ?_, ?_⟩
      · exact List.append_ne_nil_of_left_ne_nil (Lexeme.read_text_ne_nil hread) front
      · rw [hstart, Position.after_append]

theorem pairwise_place {text : List Char} {tokens : List Token} (h : Scan .start text tokens) :
    tokens.Pairwise fun left right => left.start.place < right.start.place := by
  refine h.pairwise_start.imp_of_mem ?_
  rintro left right hleft _ ⟨between, hbetween, hright⟩
  rcases h.occurs hleft with ⟨front, _, _, hstart⟩
  rw [hright, hstart, ← Position.after_append, Position.place_start_after,
    Position.place_start_after, Place.after_append]
  exact Place.lt_after _ hbetween

end Scan

end Token
end Stylesheet
