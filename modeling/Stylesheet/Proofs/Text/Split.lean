import Stylesheet.Text.Split

/-!
# Splitting what was joined

A text is cut at its separators and nowhere else, so parts without a separator come back
from the text that joins them.
-/

namespace Stylesheet

theorem splitText_of_not_mem {separator : Char} {text : List Char} (h : separator ∉ text) :
    splitText separator text = [text] := by
  induction text with
  | nil => rfl
  | cons c rest ih =>
      rw [List.mem_cons, not_or] at h
      rw [splitText, if_neg (Ne.symm h.left), ih h.right]

theorem splitText_separator (separator : Char) (rest : List Char) :
    splitText separator (separator :: rest) = [] :: splitText separator rest :=
  if_pos rfl

/-- A front without separators becomes the front of the first part. -/
theorem splitText_append {separator : Char} {front rest first : List Char}
    {parts : List (List Char)} (h : separator ∉ front)
    (hrest : splitText separator rest = first :: parts) :
    splitText separator (front ++ rest) = (front ++ first) :: parts := by
  induction front with
  | nil => exact hrest
  | cons c front ih =>
      rw [List.mem_cons, not_or] at h
      rw [List.cons_append, splitText, if_neg (Ne.symm h.left), ih h.right]
      rfl

theorem splitText_replicate (separator : Char) (count : Nat) (rest : List Char) :
    splitText separator (List.replicate count separator ++ rest) =
      List.replicate count [] ++ splitText separator rest := by
  induction count with
  | zero => rfl
  | succ count ih =>
      rw [List.replicate_succ, List.cons_append, splitText_separator, ih]
      rfl

theorem not_mem_of_mem_splitText {separator : Char} {text part : List Char}
    (h : part ∈ splitText separator text) : separator ∉ part := by
  induction text generalizing part with
  | nil =>
      rw [splitText, List.mem_singleton] at h
      subst h
      exact List.not_mem_nil
  | cons c rest ih =>
      rw [splitText] at h
      split at h
      · rcases List.mem_cons.mp h with rfl | h
        · exact List.not_mem_nil
        · exact ih h
      · rename_i hc
        split at h
        · rw [List.mem_singleton] at h
          subst h
          exact fun hmem => hc (List.mem_singleton.mp hmem).symm
        · rename_i first parts heq
          rw [heq] at ih
          rcases List.mem_cons.mp h with rfl | h
          · intro hmem
            rcases List.mem_cons.mp hmem with rfl | hmem
            · exact hc rfl
            · exact ih List.mem_cons_self hmem
          · exact ih (List.mem_cons_of_mem _ h)

/-- A text without separators goes on with the last part. -/
theorem splitText_append_last {separator : Char} {tail : List Char} (h : separator ∉ tail)
    (text : List Char) :
    exists front last, splitText separator text = front ++ [last] ∧
      splitText separator (text ++ tail) = front ++ [last ++ tail] := by
  induction text with
  | nil => exact ⟨[], [], rfl, splitText_of_not_mem h⟩
  | cons c rest ih =>
      rcases ih with ⟨front, last, hrest, hmore⟩
      by_cases hc : c = separator
      · subst hc
        refine ⟨[] :: front, last, ?_, ?_⟩
        · rw [splitText_separator, hrest]
          rfl
        · rw [List.cons_append, splitText_separator, hmore]
          rfl
      · rw [List.cons_append, splitText, splitText, if_neg hc, if_neg hc, hrest, hmore]
        cases front with
        | nil => exact ⟨[], c :: last, rfl, rfl⟩
        | cons first front => exact ⟨(c :: first) :: front, last, rfl, rfl⟩

/-- Parts behind a separator each. -/
def joinTail (separator : Char) : List (List Char) -> List Char
  | [] => []
  | part :: parts => separator :: part ++ joinTail separator parts

theorem splitText_append_joinTail {separator : Char} {part : List Char}
    {parts : List (List Char)} (h : separator ∉ part)
    (hparts : forall other, other ∈ parts -> separator ∉ other) :
    splitText separator (part ++ joinTail separator parts) = part :: parts := by
  induction parts generalizing part with
  | nil =>
      rw [joinTail, List.append_nil]
      exact splitText_of_not_mem h
  | cons other parts ih =>
      have hother := hparts other List.mem_cons_self
      have hlater := fun next hnext => hparts next (List.mem_cons_of_mem other hnext)
      have htail : splitText separator (joinTail separator (other :: parts)) =
          [] :: other :: parts := by
        rw [joinTail, List.cons_append, splitText_separator, ih hother hlater]
      rw [splitText_append h htail, List.append_nil]

end Stylesheet
