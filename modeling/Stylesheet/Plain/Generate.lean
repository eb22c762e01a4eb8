import Stylesheet.Generate
import Stylesheet.Plain.Decode

/-!
# Generating from plain objects
-/

namespace Stylesheet
namespace Plain

/-- The text of a plain tree, and its map when the options ask for one. -/
def generateWith (options : GenerateOptions) (tree : Json) : Except TreeError Generated :=
  (decode tree).map (Stylesheet.generateWith options)

end Plain
end Stylesheet
