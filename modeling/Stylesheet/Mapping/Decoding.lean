import Stylesheet.Mapping.Basic
import Stylesheet.Mapping.Vlq
import Stylesheet.Text.Split

/-!
# Reading the written form of mappings

Lines stand between semicolons and segments between commas.  A segment has one number or
four.  The first is the column of the generated text against the segment before it on the
same line; the other three are an index, a line and a column against the last segment of
four numbers, on whatever line that stands.
-/

namespace Stylesheet
namespace Mapping

/-- A count that differs by a number from another one, if it is not negative. -/
def shift? (count : Nat) (difference : Int) : Option Nat :=
  if 0 ≤ count + difference then some (count + difference).toNat else none

/-- A place in a source that differs by three numbers from another one. -/
def shiftSource? (source : SourcePlace) (index line column : Int) : Option SourcePlace := do
  return ⟨← shift? source.index index, ← shift? source.line line, ← shift? source.column column⟩

/--
Reads the segments of a line behind a column and a place in a source, and gives the place
in a source that the next line is written against.
-/
def readSegments? (line column : Nat) (source : SourcePlace) :
    List (List Char) -> Option (List Mapping × SourcePlace)
  | [] => some ([], source)
  | segment :: rest => do
      match ← Vlq.readAll? segment with
      | [generated] =>
          let column ← shift? column generated
          let (mappings, last) ← readSegments? line column source rest
          return (⟨⟨line, column⟩, none⟩ :: mappings, last)
      | [generated, index, sourceLine, sourceColumn] =>
          let column ← shift? column generated
          let source ← shiftSource? source index sourceLine sourceColumn
          let (mappings, last) ← readSegments? line column source rest
          return (⟨⟨line, column⟩, some source⟩ :: mappings, last)
      | _ => none

/-- The segments of a line; an empty line has none. -/
def segments : List Char -> List (List Char)
  | [] => []
  | c :: rest => splitText ',' (c :: rest)

/-- Reads lines, the first of which has a number, behind a place in a source. -/
def readLines? (line : Nat) (source : SourcePlace) : List (List Char) -> Option (List Mapping)
  | [] => some []
  | text :: rest => do
      let (mappings, last) ← readSegments? line 0 source (segments text)
      let later ← readLines? (line + 1) last rest
      return mappings ++ later

/-- Reads mappings. -/
def decode? (text : String) : Option (List Mapping) :=
  readLines? 0 ⟨0, 0, 0⟩ (splitText ';' text.toList)

end Mapping
end Stylesheet
