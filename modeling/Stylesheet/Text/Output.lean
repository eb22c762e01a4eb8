import Stylesheet.Text.Place

/-!
# Growing text

Text that is written from front to back, with the place where the next character goes and
the number of characters so far.
-/

namespace Stylesheet

structure Output where
  text : String
  place : Place
  length : Nat
deriving DecidableEq, Repr

namespace Output

/-- Nothing has been written. -/
def empty : Output := ⟨"", .start, 0⟩

/-- Writes one more text. -/
def write (output : Output) (text : String) : Output :=
  ⟨output.text ++ text, output.place.after text.toList, output.length + text.length⟩

@[simp] theorem text_write (output : Output) (text : String) :
    (output.write text).text = output.text ++ text := rfl

@[simp] theorem place_write (output : Output) (text : String) :
    (output.write text).place = output.place.after text.toList := rfl

@[simp] theorem length_write (output : Output) (text : String) :
    (output.write text).length = output.length + text.length := rfl

end Output

end Stylesheet
