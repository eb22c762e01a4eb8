import Stylesheet.Text.Character

/-!
# Numerals

A numeral is an optional sign, digits, a fraction and an exponent.  The point of a
fraction and the letter of an exponent belong to the numeral only when a digit follows;
otherwise they are left to the next token or to the unit.
-/

namespace Stylesheet
namespace Numeral

open Character

/-- The digits at the front of a text, and what follows. -/
def splitDigits (text : List Char) : List Char × List Char :=
  (text.takeWhile isDigit, text.dropWhile isDigit)

/-- A sign at the front of a text, and what follows. -/
def splitSign : List Char -> List Char × List Char
  | c :: rest => if isSign c then ([c], rest) else ([], c :: rest)
  | [] => ([], [])

/-- A point before at least one digit, and what follows. -/
def splitFraction : List Char -> List Char × List Char
  | '.' :: d :: rest =>
      if isDigit d then
        let (digits, after) := splitDigits (d :: rest)
        ('.' :: digits, after)
      else
        ([], '.' :: d :: rest)
  | text => ([], text)

/-- Whether a text begins with a digit. -/
def startsDigit : List Char -> Bool
  | c :: _ => isDigit c
  | [] => false

/-- The letter `e` of either case before an optional sign and at least one digit. -/
def splitExponent : List Char -> List Char × List Char
  | e :: rest =>
      let (sign, more) := splitSign rest
      if (e == 'e' || e == 'E') && startsDigit more then
        let (digits, after) := splitDigits more
        (e :: sign ++ digits, after)
      else
        ([], e :: rest)
  | [] => ([], [])

/-- The numeral at the front of a text, and what follows. -/
def split (text : List Char) : List Char × List Char :=
  let (sign, unsigned) := splitSign text
  let (digits, fractional) := splitDigits unsigned
  let (fraction, exponential) := splitFraction fractional
  let (exponent, rest) := splitExponent exponential
  (sign ++ digits ++ fraction ++ exponent, rest)

/-- Whether a text begins with a digit or with a point before a digit. -/
def startsUnsigned : List Char -> Bool
  | '.' :: rest => startsDigit rest
  | text => startsDigit text

/-- Whether a text begins with a numeral. -/
def starts (text : List Char) : Bool :=
  startsUnsigned (splitSign text).2

theorem splitDigits_append (text : List Char) :
    (splitDigits text).1 ++ (splitDigits text).2 = text :=
  List.takeWhile_append_dropWhile

theorem splitSign_append (text : List Char) :
    (splitSign text).1 ++ (splitSign text).2 = text := by
  unfold splitSign
  split
  · split <;> simp
  · rfl

theorem splitFraction_append (text : List Char) :
    (splitFraction text).1 ++ (splitFraction text).2 = text := by
  unfold splitFraction
  split
  · split
    · simp [splitDigits_append]
    · rfl
  · rfl

theorem splitExponent_append (text : List Char) :
    (splitExponent text).1 ++ (splitExponent text).2 = text := by
  match text with
  | [] => rfl
  | e :: rest =>
      simp only [splitExponent]
      split
      · simp only [List.cons_append, List.append_assoc]
        rw [splitDigits_append, splitSign_append]
      · rfl

theorem split_append (text : List Char) : (split text).1 ++ (split text).2 = text := by
  simp only [split, List.append_assoc]
  rw [splitExponent_append, splitFraction_append, splitDigits_append, splitSign_append]

/-- A text that begins with a numeral has a non-empty one. -/
theorem split_ne_nil_of_starts {text : List Char} (h : starts text = true) :
    (split text).1 ≠ [] := by
  unfold starts at h
  simp only [split]
  generalize splitSign text = signed at h
  obtain ⟨sign, rest⟩ := signed
  unfold startsUnsigned at h
  split at h
  · rename_i more heq
    simp only at heq
    subst heq
    match more, h with
    | d :: ds, h =>
        simp only [startsDigit] at h
        simp [splitDigits, splitFraction, h, show isDigit '.' = false by decide]
    | [], h => simp [startsDigit] at h
  · simp only at h
    match rest, h with
    | d :: ds, h =>
        simp only [startsDigit] at h
        simp [splitDigits, h]
    | [], h => simp [startsDigit] at h

end Numeral
end Stylesheet
