import Stylesheet.Text.Place

/-!
# Mappings

A mapping ties a place of the generated text to a place of a source, up to the next
mapping.  A mapping without a source ends the range of the one before it, so that what
follows belongs to no source.
-/

namespace Stylesheet

/-- A place in a source, which is known by its index in a list of sources. -/
structure SourcePlace where
  index : Nat
  line : Nat
  column : Nat
deriving DecidableEq, Repr

structure Mapping where
  generated : Place
  source : Option SourcePlace
deriving DecidableEq, Repr

namespace Mapping

/-- Whether a mapping ends the range of the one before it. -/
def isRangeEnd (mapping : Mapping) : Bool :=
  mapping.source.isNone

end Mapping

end Stylesheet
