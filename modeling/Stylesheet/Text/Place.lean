/-!
# Places in a text

A place counts lines and columns from zero, and is where the next character of a
text is written.  A position is a place as readers of a source count it, from one,
together with the number of characters before it.  Only a line feed ends a line.
-/

namespace Stylesheet

/-- A line and a column, both from zero. -/
structure Place where
  line : Nat
  column : Nat
deriving DecidableEq, Repr

namespace Place

/-- Where every text begins. -/
def start : Place := ⟨0, 0⟩

/-- The place behind one more character. -/
def next (place : Place) (c : Char) : Place :=
  if c = '\n' then ⟨place.line + 1, 0⟩ else ⟨place.line, place.column + 1⟩

/-- The place behind a text that is written at a place. -/
def after (place : Place) (text : List Char) : Place :=
  text.foldl next place

@[simp] theorem after_nil (place : Place) : place.after [] = place := rfl

@[simp] theorem after_cons (place : Place) (c : Char) (text : List Char) :
    place.after (c :: text) = (place.next c).after text := rfl

@[simp] theorem after_append (place : Place) (left right : List Char) :
    place.after (left ++ right) = (place.after left).after right := by
  simp [after]

end Place

/-- A line and a column, both from one, and the number of characters before them. -/
structure Position where
  line : Nat
  column : Nat
  offset : Nat
deriving DecidableEq, Repr

namespace Position

/-- Where every source begins. -/
def start : Position := ⟨1, 1, 0⟩

/-- The position behind one more character. -/
def next (position : Position) (c : Char) : Position :=
  if c = '\n' then ⟨position.line + 1, 1, position.offset + 1⟩
  else ⟨position.line, position.column + 1, position.offset + 1⟩

/-- The position behind a text that stands at a position. -/
def after (position : Position) (text : List Char) : Position :=
  text.foldl next position

/-- The same line and column counted from zero; a count of zero stays zero. -/
def place (position : Position) : Place :=
  ⟨position.line - 1, position.column - 1⟩

@[simp] theorem after_nil (position : Position) : position.after [] = position := rfl

@[simp] theorem after_cons (position : Position) (c : Char) (text : List Char) :
    position.after (c :: text) = (position.next c).after text := rfl

@[simp] theorem after_append (position : Position) (left right : List Char) :
    position.after (left ++ right) = (position.after left).after right := by
  simp [after]

/-- Every character counts once. -/
theorem offset_after (position : Position) (text : List Char) :
    (position.after text).offset = position.offset + text.length := by
  induction text generalizing position with
  | nil =>
      simp
  | cons c rest ih =>
      rw [after_cons, ih, List.length_cons]
      unfold next
      split <;> simp <;> omega

end Position

end Stylesheet
