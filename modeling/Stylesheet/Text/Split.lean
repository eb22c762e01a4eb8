/-!
# Splitting text

A text is cut at every separator.  Main statement: there is one part more than there are
separators, so an empty text has one part, which is empty.
-/

namespace Stylesheet

/-- The parts of a text between separators. -/
def splitText (separator : Char) : List Char -> List (List Char)
  | [] => [[]]
  | c :: rest =>
      if c = separator then
        [] :: splitText separator rest
      else
        match splitText separator rest with
        | [] => [[c]]
        | part :: parts => (c :: part) :: parts

theorem length_splitText (separator : Char) (text : List Char) :
    (splitText separator text).length = text.count separator + 1 := by
  induction text with
  | nil =>
      rfl
  | cons c rest ih =>
      unfold splitText
      by_cases h : c = separator
      · rw [if_pos h, List.length_cons, ih, h, List.count_cons_self]
      · rw [if_neg h, List.count_cons_of_ne h, ← ih]
        cases hparts : splitText separator rest with
        | nil =>
            rw [hparts] at ih
            exact absurd ih (by simp)
        | cons part parts =>
            rfl

end Stylesheet
