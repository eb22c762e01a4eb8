import Mathlib.Data.List.Infix
import Stylesheet.Proofs.Reread.Trivia
import Stylesheet.Proofs.Unlocated
import Stylesheet.Proofs.Value.Squeezed

/-!
# The tokens of a minified value

The text of a value has the tokens that the value was read from: whitespace and comments are
left out, each closer has the shape that its opener asks for, and the name of an address is
written in lower case.  Main statement: `Value.tokens_ofRun`, for runs that `Run.IsFirm` takes.
-/

namespace Stylesheet

open Token Run

namespace Token.ReadsBefore

variable {token : Token} {text : List Char}

theorem kind_ne_delim (h : token.ReadsBefore text) {c : Char} {kind : TokenKind}
    (hkind : Lexeme.punctuation? c = some kind) : token.kind ≠ .delim c := by
  intro hdelim
  have htext : token.text = String.singleton c := h.text_eq (by rw [hdelim]; rfl)
  rcases h with ⟨d, body, htoken, hread⟩
  rw [htext, String.toList_singleton] at htoken
  obtain ⟨rfl, rfl⟩ := List.cons.inj htoken
  rw [Lexeme.read_of_punctuation? hkind, Except.ok.injEq, Lexeme.mk.injEq, hdelim] at hread
  rw [hread.1] at hkind
  cases Lexeme.isPunctuation_of_punctuation? hkind

end Token.ReadsBefore

namespace Value

open Node

/-! ## The tokens of components -/

/-- The trivia that has been passed since the last component, and its first whitespace. -/
structure Passed (trivia : List Token) (space : Option Node) : Prop where
  isTrivia : forall token, token ∈ trivia -> token.isTrivia = true
  eq_none : space = none -> trivia = []
  ne_nil : trivia = [] -> space = none
  written : forall piece, piece ∈ space -> piece.written = [blank]

theorem Passed.push {trivia : List Token} {space : Option Node} (h : Passed trivia space)
    {token : Token} (htoken : token.isTrivia = true) {node : Node}
    (hnode : node.written = [blank]) :
    Passed (trivia ++ [token]) (space.orElse fun _ => some node) := by
  refine ⟨?_, ?_, ?_, ?_⟩
  · intro other hother
    rcases List.mem_append.mp hother with hother | hother
    · exact h.isTrivia other hother
    · rw [List.mem_singleton.mp hother]
      exact htoken
  · intro hnone
    cases space <;> cases hnone
  · intro hnil
    exact absurd hnil (List.append_ne_nil_of_right_ne_nil _ (List.cons_ne_nil _ _))
  · intro piece hpiece
    cases space with
    | none =>
        cases hpiece
        exact hnode
    | some space => exact h.written piece hpiece

end Value
end Stylesheet
