import Stylesheet.Mapping.Basic
import Stylesheet.Node.Basic

/-!
# Recording mappings

A recorder is told of every node that starts and of every node that ends, with the place
of the generated text.  It maps the starts of at-rules, selectors and declarations that
have a location.  The place where such a node ends becomes a range end only when the next
mapping starts somewhere else, or when nothing follows.
-/

namespace Stylesheet

/-- What has been recorded: the lists are kept with the latest entry of `mappings` first. -/
structure Recorder where
  sources : List String
  mappings : List Mapping
  latest : Option SourcePlace
  pendingEnd : Option Place
deriving DecidableEq, Repr

namespace Recorder

/-- Nothing has been recorded. -/
def empty : Recorder := ⟨[], [], none, none⟩

/-- Whether the starts of nodes of a type are mapped. -/
def isTracked : NodeType -> Bool
  | .atRule => true
  | .selector => true
  | .declaration => true
  | _ => false

/-- The list of sources with one more name in it, unless it is there already. -/
def addSource (sources : List String) (name : String) : List String :=
  if sources.contains name then sources else sources ++ [name]

/-- Records a mapping, and before it the range end that is pending somewhere else. -/
def map (recorder : Recorder) (source : SourcePlace) (place : Place) : Recorder :=
  let ended :=
    match recorder.pendingEnd with
    | some stop => if stop = place then recorder.mappings else ⟨stop, none⟩ :: recorder.mappings
    | none => recorder.mappings
  { recorder with
    mappings := ⟨place, some source⟩ :: ended
    latest := some source
    pendingEnd := none }

/-- A node starts at a place; a node with the start of the one mapped before it is not mapped. -/
def enter (recorder : Recorder) (node : Node) (place : Place) : Recorder :=
  match isTracked node.type, node.location with
  | true, some location =>
      let sources := addSource recorder.sources location.sourceName
      let start := location.start.place
      let source : SourcePlace :=
        ⟨sources.idxOf location.sourceName, start.line, start.column⟩
      if recorder.latest = some source then
        { recorder with sources := sources }
      else
        map { recorder with sources := sources } source place
  | _, _ => recorder

/-- A node ends at a place. -/
def leave (recorder : Recorder) (node : Node) (place : Place) : Recorder :=
  if isTracked node.type && !recorder.mappings.isEmpty then
    { recorder with pendingEnd := some place }
  else
    recorder

/-- The mappings in the order of their recording, closed by the range end that is pending. -/
def finish (recorder : Recorder) : List Mapping :=
  match recorder.pendingEnd with
  | none => recorder.mappings.reverse
  | some stop =>
      if recorder.mappings.head?.map Mapping.generated = some stop then
        recorder.mappings.reverse
      else
        (⟨stop, none⟩ :: recorder.mappings).reverse

end Recorder

end Stylesheet
