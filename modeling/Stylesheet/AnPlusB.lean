import Stylesheet.Text.Character

/-!
# The An+B notation

The notation names every position `a * n + b` in a list.  Both coefficients are kept as
they are written.  A missing step is 1 with its sign, and a step of 1 is not written; a
plus sign before the offset is not kept, and is written again when a step comes before it.
-/

namespace Stylesheet

/-- The two coefficients as they are written: the step and the offset. -/
structure AnPlusB where
  a : Option String
  b : Option String
deriving DecidableEq, Repr

namespace AnPlusB

open Character

/-- Digits after an optional sign. -/
def isInteger : List Char -> Bool
  | [] => false
  | c :: rest =>
      if isSign c then
        !rest.isEmpty && rest.all isDigit
      else
        (c :: rest).all isDigit

/-- Whether a character is the variable of the notation. -/
def isVariable (c : Char) : Bool :=
  c == 'n' || c == 'N'

/-- The step that is written in front of the variable. -/
def step? : List Char -> Option String
  | [] => some "1"
  | ['+'] => some "+1"
  | ['-'] => some "-1"
  | digits => if isInteger digits then some (String.ofList digits) else none

/-- The offset that is written behind the variable: a signed integer. -/
def offset? : List Char -> Option String
  | '+' :: digits =>
      if isInteger ('+' :: digits) then some (String.ofList digits) else none
  | '-' :: digits =>
      if isInteger ('-' :: digits) then some (String.ofList ('-' :: digits)) else none
  | _ => none

/-- Reads the notation from a text without spaces. -/
def parse? (text : String) : Option AnPlusB :=
  let front := text.toList.takeWhile fun c => !isVariable c
  match text.toList.dropWhile fun c => !isVariable c with
  | [] => if isInteger front then some ⟨none, some text⟩ else none
  | [_] => (step? front).map fun a => ⟨some a, none⟩
  | _ :: rest =>
      match step? front, offset? rest with
      | some a, some b => some ⟨some a, some b⟩
      | _, _ => none

/-- A step and the variable. -/
def stepText (a : String) : String :=
  if a = "1" then "n"
  else if a = "+1" then "+n"
  else if a = "-1" then "-n"
  else a ++ "n"

/-- An offset behind a step. -/
def offsetText (b : String) : String :=
  match b.toList with
  | c :: _ => if isSign c then b else "+" ++ b
  | [] => "+"

/-- Writes the notation. -/
def text : AnPlusB -> String
  | ⟨none, b⟩ => b.getD ""
  | ⟨some a, none⟩ => stepText a
  | ⟨some a, some b⟩ => stepText a ++ offsetText b

end AnPlusB
end Stylesheet
