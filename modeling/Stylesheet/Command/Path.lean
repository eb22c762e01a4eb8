import Stylesheet.Text.Split

/-!
# Paths

A path is a row of segments between slashes.  An empty segment and a single dot stay
where they are, and two dots lead one folder up.
-/

namespace Stylesheet
namespace Path

/-- The segments of a path. -/
def segments (path : String) : List String :=
  (splitText '/' path.toList).map String.ofList

/-- Whether a path starts at the root. -/
def isAbsolute (path : String) : Bool :=
  ['/'].isPrefixOf path.toList

/-- Whether a segment stays where it is. -/
def isIdle (segment : String) : Bool :=
  segment == "" || segment == "."

/-- Whether a segment is the name of a file or folder. -/
def isName (segment : String) : Bool :=
  !isIdle segment && segment != ".."

/-- The segments in front of the slashes that end a path. -/
def withoutEnd (segments : List String) : List String :=
  (segments.reverse.dropWhile fun segment => segment == "").reverse

/-- The last segment that is not idle, if it is a name; else the whole path. -/
def fileName (path : String) : String :=
  match ((segments path).filter fun segment => !isIdle segment).getLast? with
  | none => path
  | some segment => if isName segment then segment else path

end Path
end Stylesheet
