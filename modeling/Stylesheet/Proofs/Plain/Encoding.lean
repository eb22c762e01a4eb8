import Stylesheet.Proofs.Plain.Fields

/-!
# Reading what was written

Main statement: the plain object of every node is read as that node.
-/

namespace Stylesheet
namespace Plain

open Json (Problem Surplus field? readField? readNullable readSequence readText readFlag)

/-! ## The fields of a node -/

section Fields

variable {fields : List (String × Json)} {read : Json -> Except Problem Node} {key : String}

theorem readField?_string {text : String} (h : field? key fields = some (.string text)) :
    readField? fields key readText = .ok (some text) :=
  Json.readField?_of_field? h rfl

theorem readNullable_encodeText? {text : Option String}
    (h : field? key fields = some (encodeText? text)) :
    readNullable fields key readText = .ok text := by
  cases text with
  | none => exact Json.readNullable_of_null h
  | some text => exact Json.readNullable_of_field? h (by intro hnull; cases hnull) rfl

theorem readNode?_encode {node : Node} (h : field? key fields = some (encode node))
    (hread : read (encode node) = .ok node) :
    readNode? (unsized fields read) key = .ok (some node) := by
  rw [readNode?_unsized]
  exact Json.readField?_of_field? h hread

theorem encode_ne_null (node : Node) : encode node ≠ .null := by
  cases node
  rw [encode]
  intro hnull
  cases hnull

theorem readNullableNode_encode? {node : Option Node} (h : field? key fields = some (encode? node))
    (hread : forall child, child ∈ node -> read (encode child) = .ok child) :
    readNullableNode (unsized fields read) key = .ok node := by
  rw [readNullableNode_unsized]
  cases node with
  | none =>
      rw [encode?] at h
      exact Json.readNullable_of_null h
  | some node =>
      rw [encode?] at h
      exact Json.readNullable_of_field? h (encode_ne_null node) (hread node rfl)

theorem encodeItems_eq_map (nodes : List Node) : encodeItems nodes = nodes.map encode := by
  induction nodes with
  | nil => rw [encodeItems, List.map_nil]
  | cons node rest ih => rw [encodeItems, List.map_cons, ih]

theorem readSequence_encodeAll {nodes : List Node}
    (hread : forall child, child ∈ nodes -> read (encode child) = .ok child) :
    readSequence read (encodeAll nodes) = .ok nodes := by
  rw [encodeAll, readSequence, encodeItems_eq_map]
  induction nodes with
  | nil => rfl
  | cons node rest ih =>
      rw [List.map_cons, List.mapM_cons, hread node List.mem_cons_self,
        ih fun child hchild => hread child (List.mem_cons_of_mem _ hchild)]
      rfl

theorem readNodes?_encodeAll {nodes : List Node} (h : field? key fields = some (encodeAll nodes))
    (hread : forall child, child ∈ nodes -> read (encode child) = .ok child) :
    readNodes? (unsized fields read) key = .ok (some nodes) := by
  rw [readNodes?_unsized]
  exact Json.readField?_of_field? h (readSequence_encodeAll hread)

theorem readNullableNodes_encodeAll? {nodes : Option (List Node)}
    (h : field? key fields = some (encodeAll? nodes))
    (hread : forall child, child ∈ nodes.getD [] -> read (encode child) = .ok child) :
    readNullableNodes (unsized fields read) key = .ok nodes := by
  rw [readNullableNodes_unsized]
  cases nodes with
  | none =>
      rw [encodeAll?] at h
      exact Json.readNullable_of_null h
  | some nodes =>
      rw [encodeAll?] at h
      have hnull : encodeAll nodes ≠ .null := by
        rw [encodeAll]
        intro hnull
        cases hnull
      exact Json.readNullable_of_field? h hnull (readSequence_encodeAll hread)

/-! ## The construct of a node -/

/-- Fields that hold the values of others under their keys. -/
def Holds (fields entries : List (String × Json)) : Prop :=
  forall entry, entry ∈ entries -> field? entry.1 fields = some entry.2

theorem holds_cons {value : Json} {rest : List (String × Json)} :
    Holds fields ((key, value) :: rest) <->
      field? key fields = some value ∧ Holds fields rest :=
  List.forall_mem_cons

variable {name : String}

theorem readList_encodeAll {nodes : List Node} (h : Holds fields [("children", encodeAll nodes)])
    (hread : forall child, child ∈ nodes -> read (encode child) = .ok child)
    (build : List Node -> Construct Node) :
    readList (unsized fields read) build = .ok (build nodes) := by
  rw [readList, readNodes?_encodeAll (holds_cons.mp h).1 hread]
  rfl

theorem readNamed_string (h : Holds fields [("name", .string name)])
    (build : String -> Construct Node) : readNamed fields build = .ok (build name) := by
  rw [readNamed, readField?_string (holds_cons.mp h).1]
  rfl

theorem readValued_string {value : String} (h : Holds fields [("value", .string value)])
    (build : String -> Construct Node) : readValued fields build = .ok (build value) := by
  rw [readValued, readField?_string (holds_cons.mp h).1]
  rfl

theorem readPseudo_encodeAll? {nodes : Option (List Node)}
    (h : Holds fields [("children", encodeAll? nodes), ("name", .string name)])
    (hread : forall child, child ∈ nodes.getD [] -> read (encode child) = .ok child)
    (build : String -> Option (List Node) -> Construct Node) :
    readPseudo (unsized fields read) build = .ok (build name nodes) := by
  rcases holds_cons.mp h with ⟨hchildren, h⟩
  rw [readPseudo, readNullableNodes_encodeAll? hchildren hread,
    readField?_string (holds_cons.mp h).1]
  rfl

theorem readConstruct_encodeFields (construct : Construct Node)
    (h : Holds fields (encodeFields construct))
    (hread : forall child, child ∈ construct.children -> read (encode child) = .ok child) :
    readConstruct (unsized fields read) construct.type = .ok construct := by
  cases construct
  case atRule name front body =>
    rw [encodeFields, holds_cons, holds_cons, holds_cons] at h
    rcases h with ⟨hblock, hname, hprelude, _⟩
    have hblock := readNullableNode_encode? hblock fun child hchild =>
      hread child (List.mem_append_right _ (Option.mem_toList.mpr hchild))
    have hprelude := readNullableNode_encode? hprelude fun child hchild =>
      hread child (List.mem_append_left _ (Option.mem_toList.mpr hchild))
    simp only [Construct.type, readConstruct, hblock, readField?_string hname, hprelude]
    rfl
  case rule front body =>
    rw [encodeFields, holds_cons, holds_cons] at h
    rcases h with ⟨hblock, hprelude, _⟩
    have hblock := readNode?_encode hblock
      (hread body (List.mem_cons_of_mem _ List.mem_cons_self))
    have hprelude := readNode?_encode hprelude (hread front List.mem_cons_self)
    simp only [Construct.type, readConstruct, hblock, hprelude]
    rfl
  case declaration important property content =>
    rw [encodeFields, holds_cons, holds_cons, holds_cons] at h
    rcases h with ⟨himportant, hproperty, hvalue, _⟩
    have himportant : readField? fields "important" readFlag = .ok (some important) :=
      Json.readField?_of_field? himportant rfl
    have hvalue := readNode?_encode hvalue (hread content List.mem_cons_self)
    simp only [Construct.type, readConstruct, himportant, readField?_string hproperty, hvalue]
    rfl
  case attributeSelector name matcher content flags =>
    rw [encodeFields, holds_cons, holds_cons, holds_cons, holds_cons] at h
    rcases h with ⟨hflags, hmatcher, hname, hvalue, _⟩
    have hvalue := readNullableNode_encode? hvalue fun child hchild =>
      hread child (Option.mem_toList.mpr hchild)
    simp only [Construct.type, readConstruct, readNullable_encodeText? hflags,
      readNullable_encodeText? hmatcher, readField?_string hname, hvalue]
    rfl
  case nth formula filter =>
    rw [encodeFields, holds_cons, holds_cons] at h
    rcases h with ⟨hnth, hselector, _⟩
    have hnth := readNode?_encode hnth (hread formula List.mem_cons_self)
    have hselector := readNullableNode_encode? hselector fun child hchild =>
      hread child (List.mem_cons_of_mem _ (Option.mem_toList.mpr hchild))
    simp only [Construct.type, readConstruct, hnth, hselector]
    rfl
  case anPlusB a b =>
    rw [encodeFields, holds_cons, holds_cons] at h
    simp only [Construct.type, readConstruct, readNullable_encodeText? h.1,
      readNullable_encodeText? h.2.1]
    rfl
  case dimension value unit =>
    rw [encodeFields, holds_cons, holds_cons] at h
    simp only [Construct.type, readConstruct, readField?_string h.1, readField?_string h.2.1]
    rfl
  case url address =>
    rw [encodeFields, holds_cons] at h
    have hvalue := readNode?_encode h.1 (hread address List.mem_cons_self)
    simp only [Construct.type, readConstruct, hvalue]
    rfl
  case function name nodes =>
    rw [encodeFields, holds_cons, holds_cons] at h
    have hchildren := readNodes?_encodeAll h.1 hread
    simp only [Construct.type, readConstruct, hchildren, readField?_string h.2.1]
    rfl
  case mediaFeature name content =>
    rw [encodeFields, holds_cons, holds_cons] at h
    have hvalue := readNullableNode_encode? h.2.1 fun child hchild =>
      hread child (Option.mem_toList.mpr hchild)
    simp only [Construct.type, readConstruct, readField?_string h.1, hvalue]
    rfl
  case ratio left right =>
    rw [encodeFields, holds_cons, holds_cons] at h
    simp only [Construct.type, readConstruct, readField?_string h.1, readField?_string h.2.1]
    rfl
  case pseudoClass | pseudoElement =>
    rw [encodeFields] at h
    exact readPseudo_encodeAll? h hread _
  case cdo | cdc => rfl
  -- What is left has nothing but children, a name or a value.
  all_goals
    rw [encodeFields] at h
    first
      | exact readList_encodeAll h hread _
      | exact readNamed_string h _
      | exact readValued_string h _

end Fields

/-! ## Locations -/

/-- Fields under different keys are found where they stand. -/
theorem holds_self {entries : List (String × Json)} (h : (entries.map Prod.fst).Nodup) :
    Holds entries entries := by
  induction entries with
  | nil =>
      intro entry hentry
      cases hentry
  | cons head rest ih =>
      rw [List.map_cons, List.nodup_cons] at h
      intro entry hentry
      rw [Json.field?_cons]
      rcases List.mem_cons.mp hentry with rfl | hrest
      · rw [if_pos rfl]
      · have hne : entry.1 ≠ head.1 := by
          intro heq
          exact h.1 (heq ▸ List.mem_map_of_mem hrest)
        rw [if_neg hne]
        exact ih h.2 entry hrest

theorem readPosition_encodePosition (surplus : Surplus) (position : Position) :
    readPosition surplus (encodePosition position) = .ok position := by
  have hholds : Holds [("column", Json.int position.column), ("line", Json.int position.line),
      ("offset", Json.int position.offset)] _ := holds_self (by simp)
  rw [holds_cons, holds_cons, holds_cons] at hholds
  rcases hholds with ⟨hcolumn, hline, hoffset, _⟩
  have hcolumn := Json.readField?_of_field? hcolumn (Json.readIndex_int _)
  have hline := Json.readField?_of_field? hline (Json.readIndex_int _)
  have hoffset := Json.readField?_of_field? hoffset (Json.readIndex_int _)
  simp only [encodePosition, readPosition, hcolumn, hline, hoffset]
  rfl

theorem readLocation_encodeLocation (surplus : Surplus) (location : Location) :
    readLocation surplus (encodeLocation location) = .ok location := by
  have hholds : Holds [("end", encodePosition location.stop),
      ("sourceName", Json.string location.sourceName),
      ("start", encodePosition location.start)] _ := holds_self (by simp)
  rw [holds_cons, holds_cons, holds_cons] at hholds
  rcases hholds with ⟨hstop, hname, hstart, _⟩
  have hstop := Json.readField?_of_field? hstop (readPosition_encodePosition surplus _)
  have hstart := Json.readField?_of_field? hstart (readPosition_encodePosition surplus _)
  simp only [encodeLocation, readLocation, hstop, readField?_string hname, hstart]
  rfl

/-! ## Nodes -/

section Node

variable (location : Option Location) (construct : Construct Node)

/-- The fields of the object of a node. -/
def nodeFields : List (String × Json) :=
  Json.insertField? "location" (location.map encodeLocation)
    (Json.insertField "type" (.string construct.type.name) (encodeFields construct))

theorem encode_mk : encode ⟨construct, location⟩ = .object (nodeFields location construct) := by
  rw [encode]
  rfl

/-- The type and the location have keys of their own. -/
theorem keys_encodeFields :
    ((encodeFields construct).map Prod.fst).Nodup ∧
      forall entry, entry ∈ encodeFields construct ->
        entry.1 ≠ "type" ∧ entry.1 ≠ "location" := by
  cases construct <;> simp [encodeFields]

theorem field?_encodeFields_eq_none {key : String}
    (h : forall entry, entry ∈ encodeFields construct -> entry.1 ≠ key) :
    field? key (encodeFields construct) = none := by
  unfold field?
  rw [List.lookup_eq_none_iff]
  intro entry hentry
  exact bne_iff_ne.mpr (h entry hentry).symm

theorem holds_nodeFields : Holds (nodeFields location construct) (encodeFields construct) := by
  rcases keys_encodeFields construct with ⟨hnodup, hkeys⟩
  intro entry hentry
  rcases hkeys entry hentry with ⟨htype, hlocation⟩
  rw [nodeFields, Json.field?_insertField?_of_ne hlocation, Json.field?_insertField_of_ne htype]
  exact holds_self hnodup entry hentry

theorem field?_type_nodeFields :
    field? "type" (nodeFields location construct) = some (.string construct.type.name) := by
  rw [nodeFields, Json.field?_insertField?_of_ne (by decide)]
  apply Json.field?_insertField_self
  exact field?_encodeFields_eq_none construct fun entry hentry =>
    ((keys_encodeFields construct).2 entry hentry).1

theorem field?_location_nodeFields :
    field? "location" (nodeFields location construct) = location.map encodeLocation := by
  apply Json.field?_insertField?_self
  rw [Json.field?_insertField_of_ne (by decide)]
  exact field?_encodeFields_eq_none construct fun entry hentry =>
    ((keys_encodeFields construct).2 entry hentry).2

theorem ofName?_name (type : NodeType) : NodeType.ofName? type.name = some type := by
  cases type <;> decide

theorem readType_nodeFields :
    readType (nodeFields location construct) = .ok construct.type := by
  unfold readType
  rw [field?_type_nodeFields]
  dsimp only
  rw [ofName?_name]

theorem readLocation_nodeFields (surplus : Surplus) :
    readNullable (nodeFields location construct) "location" (readLocation surplus) =
      .ok location := by
  have hfield := field?_location_nodeFields location construct
  cases location with
  | none =>
      unfold readNullable
      rw [hfield]
      rfl
  | some location =>
      exact Json.readNullable_of_field? hfield (by intro hnull; cases hnull)
        (readLocation_encodeLocation surplus location)

end Node

theorem readTree_encode (surplus : Surplus) (node : Node) :
    readTree surplus (encode node) = .ok node := by
  induction node using Node.induction generalizing surplus with
  | step node ih =>
      rcases node with ⟨construct, location⟩
      have hconstruct := readConstruct_encodeFields construct (holds_nodeFields location construct)
        fun child hchild => ih child hchild .counted
      simp only [encode_mk, readTree_object, readLocation_nodeFields, readType_nodeFields]
      change (readConstruct _ construct.type >>= _) = _
      rw [hconstruct]
      rfl

/-! ## Types -/

/-- Every type that is a text is known, wherever it stands in a tree. -/
def KnowsTypes (tree : Json) : Prop :=
  forall tag, tag ∈ typeTags tree -> NodeType.isKnown tag = true

/-- Every type that is a text is known, wherever it stands below fields. -/
def KnowsFieldTypes (fields : List (String × Json)) : Prop :=
  forall tag, tag ∈ fieldTags fields -> NodeType.isKnown tag = true

theorem isKnown_name (type : NodeType) : NodeType.isKnown type.name = true := by
  cases type <;> decide

theorem unknownTag?_eq_none {tree : Json} (h : KnowsTypes tree) : unknownTag? tree = none := by
  unfold unknownTag?
  rw [List.find?_eq_none]
  intro tag htag
  rw [h tag htag]
  decide

theorem knowsTypes_string (text : String) : KnowsTypes (.string text) := by
  intro tag htag
  cases htag

theorem knowsTypes_bool (flag : Bool) : KnowsTypes (.bool flag) := by
  intro tag htag
  cases htag

theorem knowsTypes_null : KnowsTypes .null := by
  intro tag htag
  cases htag

theorem knowsTypes_encodeText? (text : Option String) : KnowsTypes (encodeText? text) := by
  cases text with
  | none => exact knowsTypes_null
  | some text => exact knowsTypes_string text

theorem knowsTypes_encode? {node : Option Node} :
    KnowsTypes (encode? node) <-> forall child, child ∈ node -> KnowsTypes (encode child) := by
  cases node with
  | none =>
      rw [encode?]
      constructor
      · intro _ child hchild
        cases hchild
      · intro _
        exact knowsTypes_null
  | some node =>
      rw [encode?]
      exact ⟨fun h _ hchild => Option.some.inj hchild ▸ h, fun h => h node rfl⟩

theorem mem_itemTags {items : List Json} {tag : String} :
    tag ∈ itemTags items <-> exists item, item ∈ items ∧ tag ∈ typeTags item := by
  induction items with
  | nil => simp [itemTags]
  | cons item rest ih => simp [itemTags, ih]

theorem knowsTypes_encodeAll {nodes : List Node} :
    KnowsTypes (encodeAll nodes) <-> forall child, child ∈ nodes -> KnowsTypes (encode child) := by
  unfold KnowsTypes
  rw [encodeAll, typeTags, encodeItems_eq_map]
  constructor
  · intro h child hchild tag htag
    exact h tag (mem_itemTags.mpr ⟨_, List.mem_map_of_mem hchild, htag⟩)
  · intro h tag htag
    rcases mem_itemTags.mp htag with ⟨item, hitem, htag⟩
    rcases List.mem_map.mp hitem with ⟨child, hchild, rfl⟩
    exact h child hchild tag htag

theorem knowsTypes_encodeAll? {nodes : Option (List Node)} :
    KnowsTypes (encodeAll? nodes) <->
      forall child, child ∈ nodes.getD [] -> KnowsTypes (encode child) := by
  cases nodes with
  | none =>
      rw [encodeAll?]
      constructor
      · intro _ child hchild
        cases hchild
      · intro _
        exact knowsTypes_null
  | some nodes =>
      rw [encodeAll?]
      exact knowsTypes_encodeAll

theorem knowsFieldTypes_cons {key : String} {value : Json} {rest : List (String × Json)} :
    KnowsFieldTypes ((key, value) :: rest) <->
      (key ≠ "location" -> KnowsTypes value) ∧ KnowsFieldTypes rest := by
  unfold KnowsFieldTypes KnowsTypes
  rw [fieldTags]
  by_cases h : key = "location"
  · rw [if_pos h]
    exact ⟨fun hrest => ⟨fun hkey => absurd h hkey, hrest⟩, And.right⟩
  · rw [if_neg h]
    simp only [List.mem_append, or_imp, forall_and, ne_eq, h, not_false_iff, true_imp_iff]

theorem knowsFieldTypes_insertField {key : String} {value : Json} {fields : List (String × Json)}
    (h : key ≠ "location" -> KnowsTypes value) (hfields : KnowsFieldTypes fields) :
    KnowsFieldTypes (Json.insertField key value fields) := by
  induction fields with
  | nil => exact knowsFieldTypes_cons.mpr ⟨h, hfields⟩
  | cons head rest ih =>
      rcases head with ⟨k, v⟩
      rw [Json.insertField]
      split
      · exact knowsFieldTypes_cons.mpr ⟨h, hfields⟩
      · rw [knowsFieldTypes_cons] at hfields
        exact knowsFieldTypes_cons.mpr ⟨hfields.1, ih hfields.2⟩

theorem knowsFieldTypes_encodeFields (construct : Construct Node)
    (h : forall child, child ∈ construct.children -> KnowsTypes (encode child)) :
    KnowsFieldTypes (encodeFields construct) := by
  have hnil : KnowsFieldTypes [] := by
    intro tag htag
    cases htag
  cases construct <;>
    simp only [encodeFields, knowsFieldTypes_cons, knowsTypes_string, knowsTypes_bool,
      knowsTypes_encodeText?, knowsTypes_encode?, knowsTypes_encodeAll, knowsTypes_encodeAll?, hnil,
      and_true, implies_true] <;>
    simp_all [Construct.children]

theorem knowsTypes_encode (node : Node) : KnowsTypes (encode node) := by
  induction node using Node.induction with
  | step node ih =>
      rcases node with ⟨construct, location⟩
      have htype : KnowsFieldTypes
          (Json.insertField "type" (.string construct.type.name) (encodeFields construct)) :=
        knowsFieldTypes_insertField (fun _ => knowsTypes_string _)
          (knowsFieldTypes_encodeFields construct ih)
      have hfields : KnowsFieldTypes (nodeFields location construct) := by
        cases location with
        | none => exact htype
        | some location => exact knowsFieldTypes_insertField (fun hkey => absurd rfl hkey) htype
      intro tag htag
      rw [encode_mk, typeTags, List.mem_append, ownTag?, field?_type_nodeFields] at htag
      rcases htag with htag | htag
      · rw [Option.mem_toList] at htag
        cases htag
        exact isKnown_name construct.type
      · exact hfields tag htag

theorem decode_encode (node : Node) : decode (encode node) = .ok node := by
  unfold decode
  rw [unknownTag?_eq_none (knowsTypes_encode node), readTree_encode]

end Plain
end Stylesheet
