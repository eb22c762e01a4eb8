/-!
# Character classes

The lexical grammar tells characters apart by a handful of classes.  Letters and
digits are the ASCII ones; every character outside ASCII counts as part of a name.
-/

namespace Stylesheet
namespace Character

/-- The five characters that separate tokens. -/
def isSpace (c : Char) : Bool :=
  c == ' ' || c == '\t' || c == '\n' || c == '\r' || c == '\x0c'

/-- An ASCII decimal digit. -/
def isDigit (c : Char) : Bool :=
  '0' ≤ c && c ≤ '9'

/-- An ASCII hexadecimal digit of either case. -/
def isHexDigit (c : Char) : Bool :=
  isDigit c || ('a' ≤ c && c ≤ 'f') || ('A' ≤ c && c ≤ 'F')

/-- An ASCII letter of either case. -/
def isLetter (c : Char) : Bool :=
  ('a' ≤ c && c ≤ 'z') || ('A' ≤ c && c ≤ 'Z')

/-- A character outside ASCII. -/
def isWide (c : Char) : Bool :=
  128 ≤ c.toNat

/-- A character that a name may begin with. -/
def isNameStart (c : Char) : Bool :=
  isLetter c || c == '_' || isWide c

/-- A character that a name may go on with. -/
def isNameChar (c : Char) : Bool :=
  isNameStart c || isDigit c || c == '-'

/-- Either sign of a number. -/
def isSign (c : Char) : Bool :=
  c == '+' || c == '-'

/-- Either quotation mark. -/
def isQuote (c : Char) : Bool :=
  c == '"' || c == '\''

/--
The blank characters of Unicode (property `White_Space`): more than the characters
that separate tokens, since an escape may put any of them into a name.
-/
def isBlank (c : Char) : Bool :=
  let n := c.toNat
  (9 ≤ n && n ≤ 13) || n == 0x20 || n == 0x85 || n == 0xA0 || n == 0x1680 ||
    (0x2000 ≤ n && n ≤ 0x200A) || n == 0x2028 || n == 0x2029 || n == 0x202F ||
    n == 0x205F || n == 0x3000

/-- Every character that separates tokens is blank. -/
theorem isBlank_of_isSpace {c : Char} (h : isSpace c = true) : isBlank c = true := by
  simp only [isSpace, Bool.or_eq_true, beq_iff_eq] at h
  rcases h with (((rfl | rfl) | rfl) | rfl) | rfl <;> decide

/-- A name character outside ASCII is never one that separates tokens. -/
theorem not_isSpace_of_isNameChar {c : Char} (h : isNameChar c = true) : isSpace c = false := by
  by_cases hs : isSpace c = true
  · simp only [isSpace, Bool.or_eq_true, beq_iff_eq] at hs
    rcases hs with (((rfl | rfl) | rfl) | rfl) | rfl <;> exact absurd h (by decide)
  · simpa using hs

end Character

/-- Equality of two words up to the case of ASCII letters. -/
def sameWord (left right : String) : Bool :=
  left.toLower == right.toLower

theorem sameWord_iff {left right : String} :
    sameWord left right = true <->
      left.toList.map Char.toLower = right.toList.map Char.toLower := by
  have hlower : forall text : String, text.toLower.toList = text.toList.map Char.toLower :=
    fun _ => String.toList_map
  rw [sameWord, beq_iff_eq, ← String.toList_inj, hlower, hlower]

end Stylesheet
