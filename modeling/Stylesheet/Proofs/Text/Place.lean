import Mathlib.Data.List.Induction
import Stylesheet.Text.Place

/-!
# Places as counts

A place that is reached by passing over a text is a count of its line feeds and of the
characters behind the last one.  Main statements: the position behind the front of a source is the
position of its offset, and a character is found again at the place where it was passed.
-/

namespace Stylesheet

/-- How many characters stand behind the last line feed of a text. -/
def lastLineLength (text : List Char) : Nat :=
  (text.reverse.takeWhile (· != '\n')).length

@[simp] theorem lastLineLength_nil : lastLineLength [] = 0 := rfl

theorem lastLineLength_concat (text : List Char) (c : Char) :
    lastLineLength (text ++ [c]) =
      if c = '\n' then 0 else lastLineLength text + 1 := by
  unfold lastLineLength
  rw [List.reverse_append, List.reverse_singleton, List.singleton_append,
    List.takeWhile_cons]
  by_cases hc : c = '\n'
  · rw [if_pos hc, hc]
    rfl
  · rw [if_neg hc, if_pos (bne_iff_ne.mpr hc), List.length_cons]

namespace Position

/-- A position is the one of its offset in a source: line and column count what is before it. -/
def IsIn (source : List Char) (position : Position) : Prop :=
  position.offset <= source.length ∧
    position.line = 1 + (source.take position.offset).count '\n' ∧
    position.column = 1 + lastLineLength (source.take position.offset)

theorem after_start (text : List Char) :
    start.after text =
      ⟨1 + text.count '\n', 1 + lastLineLength text, text.length⟩ := by
  induction text using List.reverseRecOn with
  | nil => rfl
  | append_singleton text c ih =>
      rw [after_append, ih, after_cons, after_nil, lastLineLength_concat,
        List.count_append, List.length_append]
      unfold next
      by_cases hc : c = '\n'
      · rw [if_pos hc, if_pos hc, hc]
        rfl
      · rw [if_neg hc, if_neg hc, List.count_singleton, if_neg (by simpa using hc)]
        rfl

theorem isIn_after_start (front rest : List Char) :
    (start.after front).IsIn (front ++ rest) := by
  rw [after_start]
  unfold IsIn
  rw [List.take_left, List.length_append]
  exact ⟨Nat.le_add_right _ _, rfl, rfl⟩

theorem place_next {position : Position} (hline : 0 < position.line)
    (hcolumn : 0 < position.column) (c : Char) :
    (position.next c).place = position.place.next c ∧
      0 < (position.next c).line ∧ 0 < (position.next c).column := by
  unfold next Place.next place
  split
  · refine ⟨?_, Nat.succ_pos _, Nat.one_pos⟩
    show (⟨position.line + 1 - 1, 1 - 1⟩ : Place) = ⟨position.line - 1 + 1, 0⟩
    rw [Nat.add_sub_cancel, Nat.sub_add_cancel hline]
  · refine ⟨?_, hline, Nat.succ_pos _⟩
    show (⟨position.line - 1, position.column + 1 - 1⟩ : Place) =
      ⟨position.line - 1, position.column - 1 + 1⟩
    rw [Nat.add_sub_cancel, Nat.sub_add_cancel hcolumn]

theorem place_after {position : Position} (hline : 0 < position.line)
    (hcolumn : 0 < position.column) (text : List Char) :
    (position.after text).place = position.place.after text := by
  induction text generalizing position with
  | nil => rfl
  | cons c rest ih =>
      rcases place_next hline hcolumn c with ⟨hplace, hline', hcolumn'⟩
      rw [after_cons, ih hline' hcolumn', hplace, Place.after_cons]

theorem place_start_after (text : List Char) :
    (start.after text).place = Place.start.after text :=
  place_after Nat.one_pos Nat.one_pos text

end Position

namespace Place

/-! ## Order -/

/-- A place comes before another on a later line, or on the same line further on. -/
instance : LT Place where
  lt left right := left.line < right.line ∨ left.line = right.line ∧ left.column < right.column

instance : LE Place where
  le left right := left.line < right.line ∨ left.line = right.line ∧ left.column <= right.column

theorem lt_iff {left right : Place} :
    left < right <->
      left.line < right.line ∨ left.line = right.line ∧ left.column < right.column :=
  Iff.rfl

theorem le_iff {left right : Place} :
    left <= right <->
      left.line < right.line ∨ left.line = right.line ∧ left.column <= right.column :=
  Iff.rfl

theorem le_refl (place : Place) : place <= place :=
  Or.inr ⟨rfl, Nat.le_refl _⟩

theorem le_of_lt {left right : Place} (h : left < right) : left <= right := by
  rcases h with h | ⟨hline, hcolumn⟩
  · exact Or.inl h
  · exact Or.inr ⟨hline, Nat.le_of_lt hcolumn⟩

theorem le_trans {left middle right : Place} (h : left <= middle) (h' : middle <= right) :
    left <= right := by
  rw [le_iff] at h h' ⊢
  omega

theorem lt_of_lt_of_le {left middle right : Place} (h : left < middle) (h' : middle <= right) :
    left < right := by
  rw [le_iff] at h'
  rw [lt_iff] at h ⊢
  omega

theorem ne_of_lt {left right : Place} (h : left < right) : left ≠ right := by
  intro heq
  rw [lt_iff, heq] at h
  omega

theorem line_le_of_le {left right : Place} (h : left <= right) : left.line <= right.line := by
  rw [le_iff] at h
  omega

theorem lt_next (place : Place) (c : Char) : place < place.next c := by
  unfold next
  split
  · exact Or.inl (Nat.lt_succ_self _)
  · exact Or.inr ⟨rfl, Nat.lt_succ_self _⟩

theorem le_after (place : Place) (text : List Char) : place <= place.after text := by
  induction text generalizing place with
  | nil => exact le_refl place
  | cons c rest ih => exact le_trans (le_of_lt (lt_next place c)) (ih (place.next c))

theorem lt_after (place : Place) {text : List Char} (h : text ≠ []) :
    place < place.after text := by
  cases text with
  | nil => exact absurd rfl h
  | cons c rest => exact lt_of_lt_of_le (lt_next place c) (le_after (place.next c) rest)

/-- A character moves a place by one line or by one column. -/
theorem line_add_column_after_le (place : Place) (text : List Char) :
    (place.after text).line + (place.after text).column <=
      place.line + place.column + text.length := by
  induction text generalizing place with
  | nil => exact Nat.le_refl _
  | cons c rest ih =>
      have hnext : (place.next c).line + (place.next c).column <=
          place.line + place.column + 1 := by
        unfold next
        split
        · show place.line + 1 + 0 <= _
          omega
        · exact Nat.le_refl _
      rw [after_cons, List.length_cons]
      exact Nat.le_trans (ih (place.next c)) (by omega)

/-! ## The character at a place -/

/-- The character at a place of a text that begins at another place. -/
def charFrom? (here : Place) : List Char -> Place -> Option Char
  | [], _ => none
  | c :: rest, place => if here = place then some c else charFrom? (here.next c) rest place

/-- The character at a place of a text. -/
def charAt? (text : List Char) (place : Place) : Option Char :=
  charFrom? start text place

theorem charFrom?_after (here : Place) (front : List Char) (c : Char) (rest : List Char) :
    charFrom? here (front ++ c :: rest) (here.after front) = some c := by
  induction front generalizing here with
  | nil => exact if_pos rfl
  | cons d front ih =>
      have hne : here ≠ here.after (d :: front) :=
        ne_of_lt (lt_after here (List.cons_ne_nil d front))
      rw [List.cons_append, charFrom?, if_neg hne, after_cons]
      exact ih (here.next d)

theorem charAt?_after_start (front : List Char) (c : Char) (rest : List Char) :
    charAt? (front ++ c :: rest) (start.after front) = some c :=
  charFrom?_after start front c rest

end Place

end Stylesheet
