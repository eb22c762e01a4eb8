import Stylesheet.Token.Lexeme

/-!
# What begins with a name

A name alone is an identifier, and a name with a parenthesis behind it opens a function, unless an
unquoted address stands in the parentheses.  `Lexeme.Names` says which of the three is read.
-/

namespace Stylesheet
namespace Lexeme

open Character

variable {text : List Char} {lexeme : Lexeme}

/-- What is read of a text that begins with a name. -/
inductive Names (text : List Char) : Lexeme -> Prop
  | ident {name rest : List Char} (hsplit : Name.split text = (name, rest))
      (hparen : rest.head? ≠ some '(') :
      Names text ⟨.ident (String.ofList name), name, rest⟩
  | function {name arguments : List Char} (hsplit : Name.split text = (name, '(' :: arguments))
      (hopens : sameWord (String.ofList name) "url" = true ->
        startsQuotedAddress arguments = true) :
      Names text ⟨.function (String.ofList name), name ++ ['('], arguments⟩
  | url {name arguments : List Char} {address : Address}
      (hsplit : Name.split text = (name, '(' :: arguments))
      (hword : sameWord (String.ofList name) "url" = true)
      (hquoted : startsQuotedAddress arguments = false)
      (haddress : splitAddress (arguments.dropWhile isSpace) = .ok address) :
      Names text ⟨.url (String.ofList address.content),
        name ++ ['('] ++ arguments.takeWhile isSpace ++ address.content ++ address.spaces ++ [')'],
        address.rest⟩

theorem names_of_named (h : named text = .ok lexeme) : Names text lexeme := by
  cases hsplit : Name.split text with
  | mk name rest =>
      simp only [named, hsplit] at h
      split at h
      · split at h
        · rename_i hurl
          rw [Bool.and_eq_true, Bool.not_eq_true'] at hurl
          split at h
          · cases h
            exact .url hsplit hurl.1 hurl.2 ‹_›
          · cases h
          · cases h
        · rename_i hurl
          rw [Bool.and_eq_true, Bool.not_eq_true', not_and, Bool.not_eq_false] at hurl
          cases h
          exact .function hsplit hurl
      · rename_i hopen
        cases h
        refine .ident hsplit fun hhead => ?_
        rcases List.head?_eq_some_iff.mp hhead with ⟨arguments, hrest⟩
        exact hopen arguments hrest

theorem named_of_names (h : Names text lexeme) : named text = .ok lexeme := by
  cases h with
  | ident hsplit hparen =>
      simp only [named, hsplit]
      split
      · exact absurd rfl hparen
      · rfl
  | @function name arguments hsplit hopens =>
      have hurl : ¬ (sameWord (String.ofList name) "url" && !startsQuotedAddress arguments) =
          true := by
        rw [Bool.and_eq_true, Bool.not_eq_true', not_and, Bool.not_eq_false]
        exact hopens
      simp only [named, hsplit, if_neg hurl]
  | url hsplit hword hquoted haddress =>
      simp only [named, hsplit, hword, hquoted, Bool.not_false, Bool.and_self, if_true, haddress]

theorem named_eq_ok_iff : named text = .ok lexeme <-> Names text lexeme :=
  ⟨names_of_named, named_of_names⟩

end Lexeme
end Stylesheet
