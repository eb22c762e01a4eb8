import Stylesheet.Proofs.Moved.Runs
import Stylesheet.Proofs.Reshaped.Selector

/-!
# Components and selectors of moved tokens

Which nodes are read does not depend on where the tokens stand or on whether locations are
recorded; only the locations do.  A map that forgets locations therefore takes the nodes of a
run to the nodes of the moved run.
-/

namespace Stylesheet

/-- A function of nodes keeps constructs and forgets the locations that are recorded. -/
structure Node.Forgets (source : SourceName) (forget : Node -> Node) : Prop where
  construct : forall node, (forget node).construct = node.construct.map forget
  location : forall construct start stop,
    (forget ⟨construct, Location.between source start stop⟩).location = none
  unlocated : forall construct, (forget ⟨construct, none⟩).location = none

/-- Without a name for the source there is nothing to forget. -/
theorem Node.forgets_id : Node.Forgets none id := by
  refine ⟨?_, fun _ _ _ => rfl, fun _ => rfl⟩
  intro node
  exact node.construct.map_id.symm

theorem Location.ofRun_none (run : List Token) : Location.ofRun none run = none := by
  unfold Location.ofRun
  split <;> rfl

namespace Node.Forgets

variable {source : SourceName} {forget : Node -> Node}

theorem type (h : Forgets source forget) (node : Node) : (forget node).type = node.type := by
  unfold Node.type
  rw [h.construct, Construct.type_map]

theorem eq_of_location (h : Forgets source forget) {construct : Construct Node}
    {location : Option Location} (hlocation : (forget ⟨construct, location⟩).location = none) :
    forget ⟨construct, location⟩ = ⟨construct.map forget, none⟩ := by
  have hconstruct := h.construct ⟨construct, location⟩
  cases hnode : forget ⟨construct, location⟩ with
  | mk construct' location' =>
      rw [hnode] at hconstruct hlocation
      change construct' = _ at hconstruct
      change location' = none at hlocation
      rw [hconstruct, hlocation]

theorem ofToken (h : Forgets source forget) (place : Position -> Position) (token : Token)
    (construct : Construct Node) :
    forget (Node.ofToken source token construct) =
      Node.ofToken none (token.moved place) (construct.map forget) :=
  h.eq_of_location (h.location construct token.start token.stop)

theorem spanning (h : Forgets source forget) (place : Position -> Position) (run : List Token)
    (construct : Construct Node) :
    forget (Node.spanning source run construct) =
      Node.spanning none (Run.moved place run) (construct.map forget) := by
  have hlocation : (forget ⟨construct, Location.ofRun source run⟩).location = none := by
    unfold Location.ofRun
    split
    · exact h.location construct _ _
    · exact h.unlocated construct
  unfold Node.spanning
  rw [Location.ofRun_none]
  exact h.eq_of_location hlocation

theorem rawRun (h : Forgets source forget) (place : Position -> Position)
    (run : List Token) :
    forget (Node.rawRun source run) = Node.rawRun none (Run.moved place run) := by
  unfold Node.rawRun
  rw [h.spanning place, Run.text_moved]
  rfl

end Node.Forgets

variable {source : SourceName} {forget : Node -> Node} (place : Position -> Position)

/-- To forget locations is to follow tokens wherever they are moved. -/
theorem Node.Forgets.follows (h : Node.Forgets source forget) :
    Node.Follows (Token.moved place) source none forget where
  construct := h.construct
  spanning := h.spanning place

theorem Value.ofRun_moved (h : Node.Forgets source forget) (run : List Token) :
    Value.ofRun none (Run.moved place run) = forget (Value.ofRun source run) :=
  Value.ofRun_map (Token.reshapes_moved place) (h.follows place) run

theorem Media.prelude?_moved (h : Node.Forgets source forget) (name : String)
    (run : List Token) :
    Media.prelude? none name (Run.moved place run) = (Media.prelude? source name run).map forget :=
  Media.prelude?_map (Token.reshapes_moved place) (h.follows place) name run

theorem Selector.prelude_moved (h : Node.Forgets source forget) (run : List Token) :
    Selector.prelude none (Run.moved place run) = forget (Selector.prelude source run) :=
  Selector.prelude_map (Token.reshapes_moved place) (h.follows place) run

end Stylesheet
