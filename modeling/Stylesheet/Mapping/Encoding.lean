import Stylesheet.Mapping.Basic
import Stylesheet.Mapping.Vlq

/-!
# The written form of mappings

Mappings are written line by line of the generated text.  A semicolon ends a line and a
comma stands between two mappings of one line.  Every number is the difference from the
same number before it: the generated column within its line, the numbers of the source
over the whole text.  A range end is written by its column alone.
-/

namespace Stylesheet
namespace Mapping

/-- The numbers that the next mapping is written against. -/
structure Baseline where
  line : Nat
  isLineStart : Bool
  column : Nat
  source : SourcePlace
deriving DecidableEq, Repr

namespace Baseline

/-- The baseline of the first mapping. -/
def start : Baseline := ⟨0, true, 0, ⟨0, 0, 0⟩⟩

/-- Moves to a later line; an earlier one changes nothing. -/
def toLine (base : Baseline) (line : Nat) : Baseline :=
  if base.line < line then { base with line := line, isLineStart := true, column := 0 } else base

end Baseline

/-- The difference of two counts, as integers of 64 bits. -/
def difference (count before : Nat) : Int :=
  Int.bmod (count - before) Vlq.modulus

/-- The semicolons in front of a mapping on a line. -/
def lineEnds (base : Baseline) (line : Nat) : String :=
  String.ofList (List.replicate (line - base.line) ';')

/-- The numbers of a place in a source against those before it. -/
def encodeSource (before source : SourcePlace) : String :=
  Vlq.encode (difference source.index before.index) ++
    Vlq.encode (difference source.line before.line) ++
    Vlq.encode (difference source.column before.column)

/-- Writes one mapping. -/
def encodeOne (base : Baseline) (mapping : Mapping) : String :=
  let moved := base.toLine mapping.generated.line
  lineEnds base mapping.generated.line ++ (if moved.isLineStart then "" else ",") ++
    Vlq.encode (difference mapping.generated.column moved.column) ++
    ((mapping.source.map (encodeSource base.source)).getD "")

/-- The baseline behind a mapping. -/
def advance (base : Baseline) (mapping : Mapping) : Baseline :=
  let moved := base.toLine mapping.generated.line
  { moved with
    isLineStart := false
    column := mapping.generated.column
    source := mapping.source.getD moved.source }

/-- Writes mappings behind a baseline. -/
def encodeFrom (base : Baseline) : List Mapping -> String
  | [] => ""
  | mapping :: rest => encodeOne base mapping ++ encodeFrom (advance base mapping) rest

/-- Writes mappings, which are meant to be in the order of their generated places. -/
def encode (mappings : List Mapping) : String :=
  encodeFrom .start mappings

end Mapping
end Stylesheet
