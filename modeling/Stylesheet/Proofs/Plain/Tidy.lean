import Stylesheet.Plain.Generate
import Stylesheet.Proofs.Plain.Encoding

/-!
# Writing what was read

Main statements: nodes and plain trees carry the same text and the same map, and a tree that was
read as a node is written again with a few changes at each node, which `tidy` makes: keys that the
node does not have go, absent optional fields become null and an absent flag false, a location
that is null goes, a location that is a row becomes an object, and a type is written by its name.
-/

namespace Stylesheet
namespace Plain

open Json (Problem Surplus field? readField? readNullable readSequence readText readFlag required)

/-! ## The changes -/

/-- A field that a node may have: its key, and what is written when it is absent. -/
structure Field where
  key : String
  absent : Option Json

/-- A field that is always there. -/
def Field.always (key : String) : Field := ⟨key, none⟩

/-- A field that may be absent and is null then. -/
def Field.orNull (key : String) : Field := ⟨key, some .null⟩

/-- The fields of a type, in the order of their keys. -/
def fieldsOf : NodeType -> List Field
  | .atRule => [.orNull "block", .always "name", .orNull "prelude"]
  | .rule => [.always "block", .always "prelude"]
  | .declaration => [⟨"important", some (.bool false)⟩, .always "property", .always "value"]
  | .attributeSelector => [.orNull "flags", .orNull "matcher", .always "name", .orNull "value"]
  | .pseudoClass | .pseudoElement => [.orNull "children", .always "name"]
  | .nth => [.always "nth", .orNull "selector"]
  | .anPlusB => [.orNull "a", .orNull "b"]
  | .dimension => [.always "unit", .always "value"]
  | .function => [.always "children", .always "name"]
  | .mediaFeature => [.always "name", .orNull "value"]
  | .ratio => [.always "left", .always "right"]
  | .typeSelector | .idSelector | .classSelector | .combinator | .identifier => [.always "name"]
  | .number | .percentage | .hash | .string | .url | .unicodeRange | .operator | .whiteSpace
  | .comment | .raw => [.always "value"]
  | .styleSheet | .atRulePrelude | .block | .declarationList | .selectorList | .selector | .value
  | .parentheses | .brackets | .mediaQueryList | .mediaQuery => [.always "children"]
  | .cdo | .cdc => []

/-- A field as it stands among others, or as it is written when it is absent. -/
def Field.from? (fields : List (String × Json)) (field : Field) : Option (String × Json) :=
  ((field? field.key fields).or field.absent).map fun value => (field.key, value)

/-- A field that is kept and changed, if it is there. -/
def kept (key : String) (change : Json -> Json) (fields : List (String × Json)) :
    List (String × Json) :=
  ((field? key fields).map fun value => (key, change value)).toList

/-- A position as an object of its three numbers. -/
def tidyPosition : Json -> Json
  | .object fields => .object (kept "column" id fields ++ kept "line" id fields ++
      kept "offset" id fields)
  | .array [line, column, offset] =>
      .object [("column", column), ("line", line), ("offset", offset)]
  | other => other

/-- A location as an object of its name and its two positions. -/
def tidyLocation : Json -> Json
  | .object fields => .object (kept "end" tidyPosition fields ++ kept "sourceName" id fields ++
      kept "start" tidyPosition fields)
  | .array [sourceName, start, stop] =>
      .object [("end", tidyPosition stop), ("sourceName", sourceName),
        ("start", tidyPosition start)]
  | other => other

/-- The location among fields, unless it is null. -/
def tidyLocation? (fields : List (String × Json)) : Option Json :=
  match field? "location" fields with
  | none => none
  | some .null => none
  | some location => some (tidyLocation location)

/--
An object with the fields of its type alone, whose values are taken from fields that are tidy
already.  An object without a type stays as it is.
-/
def tidyObject (fields tidied : List (String × Json)) : Json :=
  match readType fields with
  | .ok type => .object (Json.insertField? "location" (tidyLocation? fields)
      (Json.insertField "type" (.string type.name) ((fieldsOf type).filterMap (Field.from? tidied))))
  | .error _ => .object fields

mutual

/-- A plain tree as it is written again. -/
def tidy : Json -> Json
  | .object fields => tidyObject fields (tidyFields fields)
  | .array items => .array (tidyItems items)
  | other => other

def tidyItems : List Json -> List Json
  | [] => []
  | item :: rest => tidy item :: tidyItems rest

def tidyFields : List (String × Json) -> List (String × Json)
  | [] => []
  | (key, value) :: rest => (key, tidy value) :: tidyFields rest

end

theorem tidyItems_eq_map (items : List Json) : tidyItems items = items.map tidy := by
  induction items with
  | nil => rw [tidyItems, List.map_nil]
  | cons item rest ih => rw [tidyItems, List.map_cons, ih]

theorem field?_tidyFields (key : String) (fields : List (String × Json)) :
    field? key (tidyFields fields) = (field? key fields).map tidy := by
  induction fields with
  | nil => rfl
  | cons head rest ih =>
      rcases head with ⟨k, v⟩
      rw [tidyFields, Json.field?_cons, Json.field?_cons, ih]
      split <;> rfl

/-! ## Locations -/

theorem kept_of_field? {key : String} {value : Json} {fields : List (String × Json)}
    (h : field? key fields = some value) (change : Json -> Json) :
    kept key change fields = [(key, change value)] := by
  unfold kept
  rw [h]
  rfl

theorem readElement_eq_ok {α : Type} {record : String} {count index : Nat} {row : List Json}
    {read : Json -> Except Problem α} {a : α}
    (h : Json.readElement record count row index read = .ok a) :
    exists value, row[index]? = some value ∧ read value = .ok a := by
  unfold Json.readElement at h
  split at h
  · cases h
  · rename_i value hvalue
    exact ⟨value, hvalue, h⟩

theorem eq_triple {α : Type} {row : List α} {a b c : α} (ha : row[0]? = some a)
    (hb : row[1]? = some b) (hc : row[2]? = some c) (h : row.length <= 3) : row = [a, b, c] := by
  match row, h with
  | [x, y, z], _ =>
      cases ha
      cases hb
      cases hc
      rfl
  | [], _ => cases ha
  | [x], _ => cases hb
  | [x, y], _ => cases hc
  | x :: y :: z :: w :: rest, h =>
      simp only [List.length_cons] at h
      omega

theorem length_of_endRow {surplus : Surplus} {count : Nat} {row : List Json} {done : Unit}
    (h : Json.endRow surplus count row = .ok done) : row.length <= count := by
  unfold Json.endRow at h
  split at h
  · assumption
  · cases h

theorem encodePosition_of_readPosition {surplus : Surplus} {tree : Json} {position : Position}
    (h : readPosition surplus tree = .ok position) : encodePosition position = tidyPosition tree := by
  unfold readPosition at h
  split at h
  · rename_i fields
    rcases Except.bind_eq_ok h with ⟨column?, hcolumn, h⟩
    rcases Except.bind_eq_ok h with ⟨line?, hline, h⟩
    rcases Except.bind_eq_ok h with ⟨offset?, hoffset, h⟩
    rcases Except.bind_eq_ok h with ⟨line, hline', h⟩
    rcases Except.bind_eq_ok h with ⟨column, hcolumn', h⟩
    rcases Except.bind_eq_ok h with ⟨offset, hoffset', h⟩
    cases h
    rcases Json.field?_of_required hcolumn hcolumn' with ⟨_, hcolumn, hread⟩
    cases Json.readIndex_eq_ok hread
    rcases Json.field?_of_required hline hline' with ⟨_, hline, hread⟩
    cases Json.readIndex_eq_ok hread
    rcases Json.field?_of_required hoffset hoffset' with ⟨_, hoffset, hread⟩
    cases Json.readIndex_eq_ok hread
    rw [tidyPosition, kept_of_field? hcolumn, kept_of_field? hline, kept_of_field? hoffset]
    rfl
  · rename_i row
    rcases Except.bind_eq_ok h with ⟨line, hline, h⟩
    rcases Except.bind_eq_ok h with ⟨column, hcolumn, h⟩
    rcases Except.bind_eq_ok h with ⟨offset, hoffset, h⟩
    rcases Except.bind_eq_ok h with ⟨_, hend, h⟩
    cases h
    rcases readElement_eq_ok hline with ⟨_, hline, hread⟩
    cases Json.readIndex_eq_ok hread
    rcases readElement_eq_ok hcolumn with ⟨_, hcolumn, hread⟩
    cases Json.readIndex_eq_ok hread
    rcases readElement_eq_ok hoffset with ⟨_, hoffset, hread⟩
    cases Json.readIndex_eq_ok hread
    rw [eq_triple hline hcolumn hoffset (length_of_endRow hend)]
    rfl
  · cases h

theorem encodeLocation_of_readLocation {surplus : Surplus} {tree : Json} {location : Location}
    (h : readLocation surplus tree = .ok location) : encodeLocation location = tidyLocation tree := by
  unfold readLocation at h
  split at h
  · rename_i fields
    rcases Except.bind_eq_ok h with ⟨stop?, hstop, h⟩
    rcases Except.bind_eq_ok h with ⟨name?, hname, h⟩
    rcases Except.bind_eq_ok h with ⟨start?, hstart, h⟩
    rcases Except.bind_eq_ok h with ⟨name, hname', h⟩
    rcases Except.bind_eq_ok h with ⟨start, hstart', h⟩
    rcases Except.bind_eq_ok h with ⟨stop, hstop', h⟩
    cases h
    rcases Json.field?_of_required hname hname' with ⟨_, hname, hread⟩
    cases Json.readText_eq_ok hread
    rcases Json.field?_of_required hstart hstart' with ⟨start', hstart, hread⟩
    have hstart' := encodePosition_of_readPosition hread
    rcases Json.field?_of_required hstop hstop' with ⟨stop', hstop, hread⟩
    have hstop' := encodePosition_of_readPosition hread
    rw [tidyLocation, kept_of_field? hstop, kept_of_field? hname, kept_of_field? hstart,
      encodeLocation, hstart', hstop']
    rfl
  · rename_i row
    rcases Except.bind_eq_ok h with ⟨name, hname, h⟩
    rcases Except.bind_eq_ok h with ⟨start, hstart, h⟩
    rcases Except.bind_eq_ok h with ⟨stop, hstop, h⟩
    rcases Except.bind_eq_ok h with ⟨_, hend, h⟩
    cases h
    rcases readElement_eq_ok hname with ⟨_, hname, hread⟩
    cases Json.readText_eq_ok hread
    rcases readElement_eq_ok hstart with ⟨start', hstart, hread⟩
    have hstart' := encodePosition_of_readPosition hread
    rcases readElement_eq_ok hstop with ⟨stop', hstop, hread⟩
    have hstop' := encodePosition_of_readPosition hread
    rw [eq_triple hname hstart hstop (length_of_endRow hend), encodeLocation, hstart', hstop']
    rfl
  · cases h

theorem tidyLocation?_of_readNullable {surplus : Surplus} {fields : List (String × Json)}
    {location : Option Location}
    (h : readNullable fields "location" (readLocation surplus) = .ok location) :
    tidyLocation? fields = location.map encodeLocation := by
  unfold tidyLocation?
  rcases Json.readNullable_eq_ok h with ⟨hfield | hfield, rfl⟩ | ⟨value, a, hfield, hnull, hread, rfl⟩
  · rw [hfield]
    rfl
  · rw [hfield]
    rfl
  · rw [hfield, Option.map_some, encodeLocation_of_readLocation hread]
    split
    · rename_i heq
      cases heq
    · rename_i heq
      cases heq
      exact absurd rfl hnull
    · rename_i heq
      cases heq
      rfl

/-! ## Fields -/

section Fields

variable {fields : List (String × Json)} {read : Json -> Except Problem Node} {key : String}

theorem from?_of_field? {value : Json} (h : field? key fields = some value)
    (absent : Option Json) :
    Field.from? (tidyFields fields) ⟨key, absent⟩ = some (key, tidy value) := by
  unfold Field.from?
  rw [field?_tidyFields, h]
  rfl

theorem from?_of_absent (h : field? key fields = none) (absent : Json) :
    Field.from? (tidyFields fields) ⟨key, some absent⟩ = some (key, absent) := by
  unfold Field.from?
  rw [field?_tidyFields, h]
  rfl

theorem from?_string {found : Option String} {text : String}
    (h : readField? fields key readText = .ok found) (hrequired : required key found = .ok text) :
    (Field.always key).from? (tidyFields fields) = some (key, .string text) := by
  rcases Json.field?_of_required h hrequired with ⟨value, hfield, hread⟩
  cases Json.readText_eq_ok hread
  exact from?_of_field? hfield none

theorem from?_flag {found : Option Bool} (h : readField? fields key readFlag = .ok found) :
    Field.from? (tidyFields fields) ⟨key, some (.bool false)⟩ =
      some (key, .bool (found.getD false)) := by
  rcases Json.readField?_eq_ok h with ⟨hfield, rfl⟩ | ⟨value, flag, hfield, hread, rfl⟩
  · exact from?_of_absent hfield _
  · cases Json.readFlag_eq_ok hread
    exact from?_of_field? hfield _

/-- A field that may be null, by what its value is written as again. -/
theorem from?_nullable {α : Type} {found : Option α} {readValue : Json -> Except Problem α}
    (write : α -> Json) (h : readNullable fields key readValue = .ok found)
    (hwrites : forall value a, field? key fields = some value -> readValue value = .ok a ->
      write a = tidy value) :
    (Field.orNull key).from? (tidyFields fields) = some (key, (found.map write).getD .null) := by
  rcases Json.readNullable_eq_ok h with ⟨hfield | hfield, rfl⟩ | ⟨value, a, hfield, _, hread, rfl⟩
  · exact from?_of_absent hfield _
  · exact from?_of_field? hfield _
  · rw [Option.map_some, Option.getD_some, hwrites value a hfield hread]
    exact from?_of_field? hfield _

theorem from?_encodeText? {text : Option String} (h : readNullable fields key readText = .ok text) :
    (Field.orNull key).from? (tidyFields fields) = some (key, encodeText? text) := by
  have hentry := from?_nullable Json.string h fun value a _ hread => by
    cases Json.readText_eq_ok hread
    rfl
  cases text <;> exact hentry

/-- What a reader reads of the values of an object is written again as those values are tidied. -/
def Rewrites (read : Json -> Except Problem Node) (fields : List (String × Json)) : Prop :=
  forall value node, sizeOf value < sizeOf fields -> read value = .ok node ->
    encode node = tidy value

theorem from?_encode (hwrites : Rewrites read fields) {found : Option Node} {node : Node}
    (h : readNode? (unsized fields read) key = .ok found)
    (hrequired : required key found = .ok node) :
    (Field.always key).from? (tidyFields fields) = some (key, encode node) := by
  rw [readNode?_unsized] at h
  rcases Json.field?_of_required h hrequired with ⟨value, hfield, hread⟩
  rw [hwrites value node (Json.sizeOf_lt_of_field? hfield) hread]
  exact from?_of_field? hfield none

theorem from?_encode? (hwrites : Rewrites read fields) {node : Option Node}
    (h : readNullableNode (unsized fields read) key = .ok node) :
    (Field.orNull key).from? (tidyFields fields) = some (key, encode? node) := by
  rw [readNullableNode_unsized] at h
  have hentry := from?_nullable encode h fun value node hfield hread =>
    hwrites value node (Json.sizeOf_lt_of_field? hfield) hread
  cases node with
  | none => rw [encode?]; exact hentry
  | some node => rw [encode?]; exact hentry

theorem map_encode_of_mapM {items : List Json} {nodes : List Node}
    (h : items.mapM read = .ok nodes)
    (hwrites : forall item, item ∈ items -> forall node, read item = .ok node ->
      encode node = tidy item) :
    nodes.map encode = items.map tidy := by
  induction items generalizing nodes with
  | nil =>
      cases h
      rfl
  | cons item rest ih =>
      rw [List.mapM_cons] at h
      rcases Except.bind_eq_ok h with ⟨node, hnode, h⟩
      rcases Except.bind_eq_ok h with ⟨more, hmore, h⟩
      cases h
      rw [List.map_cons, List.map_cons, hwrites item List.mem_cons_self node hnode,
        ih hmore fun next hnext => hwrites next (List.mem_cons_of_mem _ hnext)]

theorem encodeAll_of_readSequence (hwrites : Rewrites read fields) {value : Json}
    {nodes : List Node} (hfield : field? key fields = some value)
    (h : readSequence read value = .ok nodes) : encodeAll nodes = tidy value := by
  have hsize := Json.sizeOf_lt_of_field? hfield
  cases value with
  | array items =>
      rw [encodeAll, encodeItems_eq_map, tidy, tidyItems_eq_map, map_encode_of_mapM h]
      intro item hitem node hread
      have hlt := List.sizeOf_lt_of_mem hitem
      rw [Json.array.sizeOf_spec] at hsize
      exact hwrites item node (by omega) hread
  | _ => cases h

theorem from?_encodeAll (hwrites : Rewrites read fields) {found : Option (List Node)}
    {nodes : List Node} (h : readNodes? (unsized fields read) key = .ok found)
    (hrequired : required key found = .ok nodes) :
    (Field.always key).from? (tidyFields fields) = some (key, encodeAll nodes) := by
  rw [readNodes?_unsized] at h
  rcases Json.field?_of_required h hrequired with ⟨value, hfield, hread⟩
  rw [encodeAll_of_readSequence hwrites hfield hread]
  exact from?_of_field? hfield none

theorem from?_encodeAll? (hwrites : Rewrites read fields) {nodes : Option (List Node)}
    (h : readNullableNodes (unsized fields read) key = .ok nodes) :
    (Field.orNull key).from? (tidyFields fields) = some (key, encodeAll? nodes) := by
  rw [readNullableNodes_unsized] at h
  have hentry := from?_nullable encodeAll h fun value nodes hfield hread =>
    encodeAll_of_readSequence hwrites hfield hread
  cases nodes with
  | none => rw [encodeAll?]; exact hentry
  | some nodes => rw [encodeAll?]; exact hentry

/-! ## Constructs -/

variable {construct : Construct Node}

theorem readList_eq_ok (hwrites : Rewrites read fields) {build : List Node -> Construct Node}
    (h : readList (unsized fields read) build = .ok construct) :
    exists nodes, construct = build nodes ∧
      [Field.always "children"].filterMap (Field.from? (tidyFields fields)) =
        [("children", encodeAll nodes)] := by
  rcases Except.bind_eq_ok h with ⟨found, hfound, h⟩
  rcases Except.bind_eq_ok h with ⟨nodes, hnodes, h⟩
  cases h
  exact ⟨nodes, rfl, List.filterMap_cons_some (from?_encodeAll hwrites hfound hnodes)⟩

theorem readNamed_eq_ok {build : String -> Construct Node}
    (h : readNamed fields build = .ok construct) :
    exists name, construct = build name ∧
      [Field.always "name"].filterMap (Field.from? (tidyFields fields)) =
        [("name", .string name)] := by
  rcases Except.bind_eq_ok h with ⟨found, hfound, h⟩
  rcases Except.bind_eq_ok h with ⟨name, hname, h⟩
  cases h
  exact ⟨name, rfl, List.filterMap_cons_some (from?_string hfound hname)⟩

theorem readValued_eq_ok {build : String -> Construct Node}
    (h : readValued fields build = .ok construct) :
    exists value, construct = build value ∧
      [Field.always "value"].filterMap (Field.from? (tidyFields fields)) =
        [("value", .string value)] := by
  rcases Except.bind_eq_ok h with ⟨found, hfound, h⟩
  rcases Except.bind_eq_ok h with ⟨value, hvalue, h⟩
  cases h
  exact ⟨value, rfl, List.filterMap_cons_some (from?_string hfound hvalue)⟩

theorem readPseudo_eq_ok (hwrites : Rewrites read fields)
    {build : String -> Option (List Node) -> Construct Node}
    (h : readPseudo (unsized fields read) build = .ok construct) :
    exists name nodes, construct = build name nodes ∧
      [Field.orNull "children", .always "name"].filterMap (Field.from? (tidyFields fields)) =
        [("children", encodeAll? nodes), ("name", .string name)] := by
  rcases Except.bind_eq_ok h with ⟨nodes, hnodes, h⟩
  rcases Except.bind_eq_ok h with ⟨found, hfound, h⟩
  rcases Except.bind_eq_ok h with ⟨name, hname, h⟩
  cases h
  refine ⟨name, nodes, rfl, ?_⟩
  rw [List.filterMap_cons_some (from?_encodeAll? hwrites hnodes),
    List.filterMap_cons_some (from?_string hfound hname), List.filterMap_nil]

theorem encodeFields_of_readConstruct (hwrites : Rewrites read fields) {type : NodeType}
    (h : readConstruct (unsized fields read) type = .ok construct) :
    construct.type = type ∧
      encodeFields construct = (fieldsOf type).filterMap (Field.from? (tidyFields fields)) := by
  cases type
  case atRule =>
    rcases Except.bind_eq_ok h with ⟨block, hblock, h⟩
    rcases Except.bind_eq_ok h with ⟨name?, hname?, h⟩
    rcases Except.bind_eq_ok h with ⟨prelude, hprelude, h⟩
    rcases Except.bind_eq_ok h with ⟨name, hname, h⟩
    cases h
    have hblock := from?_encode? hwrites hblock
    have hname := from?_string hname? hname
    have hprelude := from?_encode? hwrites hprelude
    constructor
    · rfl
    · simp only [encodeFields, fieldsOf, List.filterMap_cons, hblock, hname, hprelude,
        List.filterMap_nil]
  case rule =>
    rcases Except.bind_eq_ok h with ⟨block?, hblock?, h⟩
    rcases Except.bind_eq_ok h with ⟨prelude?, hprelude?, h⟩
    rcases Except.bind_eq_ok h with ⟨prelude, hprelude, h⟩
    rcases Except.bind_eq_ok h with ⟨block, hblock, h⟩
    cases h
    have hblock := from?_encode hwrites hblock? hblock
    have hprelude := from?_encode hwrites hprelude? hprelude
    constructor
    · rfl
    · simp only [encodeFields, fieldsOf, List.filterMap_cons, hblock, hprelude,
        List.filterMap_nil]
  case declaration =>
    rcases Except.bind_eq_ok h with ⟨important, himportant, h⟩
    rcases Except.bind_eq_ok h with ⟨property?, hproperty?, h⟩
    rcases Except.bind_eq_ok h with ⟨value?, hvalue?, h⟩
    rcases Except.bind_eq_ok h with ⟨property, hproperty, h⟩
    rcases Except.bind_eq_ok h with ⟨value, hvalue, h⟩
    cases h
    have himportant := from?_flag himportant
    have hproperty := from?_string hproperty? hproperty
    have hvalue := from?_encode hwrites hvalue? hvalue
    constructor
    · rfl
    · simp only [encodeFields, fieldsOf, List.filterMap_cons, himportant, hproperty, hvalue,
        List.filterMap_nil]
  case attributeSelector =>
    rcases Except.bind_eq_ok h with ⟨flags, hflags, h⟩
    rcases Except.bind_eq_ok h with ⟨matcher, hmatcher, h⟩
    rcases Except.bind_eq_ok h with ⟨name?, hname?, h⟩
    rcases Except.bind_eq_ok h with ⟨value, hvalue, h⟩
    rcases Except.bind_eq_ok h with ⟨name, hname, h⟩
    cases h
    have hflags := from?_encodeText? hflags
    have hmatcher := from?_encodeText? hmatcher
    have hname := from?_string hname? hname
    have hvalue := from?_encode? hwrites hvalue
    constructor
    · rfl
    · simp only [encodeFields, fieldsOf, List.filterMap_cons, hflags, hmatcher, hname, hvalue,
        List.filterMap_nil]
  case nth =>
    rcases Except.bind_eq_ok h with ⟨nth?, hnth?, h⟩
    rcases Except.bind_eq_ok h with ⟨selector, hselector, h⟩
    rcases Except.bind_eq_ok h with ⟨nth, hnth, h⟩
    cases h
    have hnth := from?_encode hwrites hnth? hnth
    have hselector := from?_encode? hwrites hselector
    constructor
    · rfl
    · simp only [encodeFields, fieldsOf, List.filterMap_cons, hnth, hselector, List.filterMap_nil]
  case anPlusB =>
    rcases Except.bind_eq_ok h with ⟨a, ha, h⟩
    rcases Except.bind_eq_ok h with ⟨b, hb, h⟩
    cases h
    have ha := from?_encodeText? ha
    have hb := from?_encodeText? hb
    constructor
    · rfl
    · simp only [encodeFields, fieldsOf, List.filterMap_cons, ha, hb, List.filterMap_nil]
  case dimension =>
    rcases Except.bind_eq_ok h with ⟨unit?, hunit?, h⟩
    rcases Except.bind_eq_ok h with ⟨value?, hvalue?, h⟩
    rcases Except.bind_eq_ok h with ⟨value, hvalue, h⟩
    rcases Except.bind_eq_ok h with ⟨unit, hunit, h⟩
    cases h
    have hunit := from?_string hunit? hunit
    have hvalue := from?_string hvalue? hvalue
    constructor
    · rfl
    · simp only [encodeFields, fieldsOf, List.filterMap_cons, hunit, hvalue, List.filterMap_nil]
  case url =>
    rcases Except.bind_eq_ok h with ⟨value?, hvalue?, h⟩
    rcases Except.bind_eq_ok h with ⟨value, hvalue, h⟩
    cases h
    have hvalue := from?_encode hwrites hvalue? hvalue
    constructor
    · rfl
    · simp only [encodeFields, fieldsOf, List.filterMap_cons, hvalue, List.filterMap_nil]
  case function =>
    rcases Except.bind_eq_ok h with ⟨children?, hchildren?, h⟩
    rcases Except.bind_eq_ok h with ⟨name?, hname?, h⟩
    rcases Except.bind_eq_ok h with ⟨name, hname, h⟩
    rcases Except.bind_eq_ok h with ⟨children, hchildren, h⟩
    cases h
    have hchildren := from?_encodeAll hwrites hchildren? hchildren
    have hname := from?_string hname? hname
    constructor
    · rfl
    · simp only [encodeFields, fieldsOf, List.filterMap_cons, hchildren, hname,
        List.filterMap_nil]
  case mediaFeature =>
    rcases Except.bind_eq_ok h with ⟨name?, hname?, h⟩
    rcases Except.bind_eq_ok h with ⟨value, hvalue, h⟩
    rcases Except.bind_eq_ok h with ⟨name, hname, h⟩
    cases h
    have hname := from?_string hname? hname
    have hvalue := from?_encode? hwrites hvalue
    constructor
    · rfl
    · simp only [encodeFields, fieldsOf, List.filterMap_cons, hname, hvalue, List.filterMap_nil]
  case ratio =>
    rcases Except.bind_eq_ok h with ⟨left?, hleft?, h⟩
    rcases Except.bind_eq_ok h with ⟨right?, hright?, h⟩
    rcases Except.bind_eq_ok h with ⟨left, hleft, h⟩
    rcases Except.bind_eq_ok h with ⟨right, hright, h⟩
    cases h
    have hleft := from?_string hleft? hleft
    have hright := from?_string hright? hright
    constructor
    · rfl
    · simp only [encodeFields, fieldsOf, List.filterMap_cons, hleft, hright, List.filterMap_nil]
  case pseudoClass | pseudoElement =>
    rcases readPseudo_eq_ok hwrites h with ⟨name, nodes, rfl, hfields⟩
    rw [encodeFields, fieldsOf, hfields]
    exact ⟨rfl, rfl⟩
  case cdo | cdc =>
    cases h
    rw [encodeFields]
    exact ⟨rfl, rfl⟩
  case typeSelector | idSelector | classSelector | combinator | identifier =>
    rcases readNamed_eq_ok h with ⟨name, rfl, hfields⟩
    rw [encodeFields, fieldsOf, hfields]
    exact ⟨rfl, rfl⟩
  case number | percentage | hash | string | unicodeRange | operator | whiteSpace | comment | raw =>
    rcases readValued_eq_ok h with ⟨value, rfl, hfields⟩
    rw [encodeFields, fieldsOf, hfields]
    exact ⟨rfl, rfl⟩
  all_goals
    rcases readList_eq_ok hwrites h with ⟨nodes, rfl, hfields⟩
    rw [encodeFields, fieldsOf, hfields]
    exact ⟨rfl, rfl⟩

end Fields

/-! ## Nodes -/

theorem encode_of_readTree {surplus : Surplus} {tree : Json} {node : Node}
    (h : readTree surplus tree = .ok node) : encode node = tidy tree := by
  induction hsize : sizeOf tree using Nat.strongRecOn generalizing surplus tree node with
  | ind size ih =>
      subst hsize
      cases tree with
      | object fields =>
          have hwrites : Rewrites (readTree .counted) fields := by
            intro value child hlt hread
            have hlt' : sizeOf value < sizeOf (Json.object fields) := by
              rw [Json.object.sizeOf_spec]
              omega
            exact ih _ hlt' hread rfl
          rw [readTree_object] at h
          rcases Except.bind_eq_ok h with ⟨location, hlocation, h⟩
          rcases Except.bind_eq_ok h with ⟨type, htype, h⟩
          rcases Except.bind_eq_ok h with ⟨construct, hconstruct, h⟩
          cases h
          rcases encodeFields_of_readConstruct hwrites hconstruct with ⟨rfl, hfields⟩
          rw [encode_mk, nodeFields, hfields, ← tidyLocation?_of_readNullable hlocation, tidy,
            tidyObject, htype]
      | _ =>
          rw [readTree] at h
          · cases h
          · intro fields heq
            cases heq

theorem encode_of_decode {tree : Json} {node : Node} (h : decode tree = .ok node) :
    encode node = tidy tree := by
  unfold decode at h
  split at h
  · cases h
  · split at h
    · rename_i hread
      cases h
      exact encode_of_readTree hread
    · cases h

theorem generateWith_encode (options : GenerateOptions) (node : Node) :
    generateWith options (encode node) = .ok (Stylesheet.generateWith options node) := by
  unfold generateWith
  rw [decode_encode]
  rfl

theorem encode_decode :
    (forall node, decode (encode node) = .ok node ∧
      forall options, generateWith options (encode node) =
        .ok (Stylesheet.generateWith options node)) ∧
      forall tree node, decode tree = .ok node -> encode node = tidy tree := by
  constructor
  · intro node
    constructor
    · exact decode_encode node
    · intro options
      exact generateWith_encode options node
  · intro tree node h
    exact encode_of_decode h

theorem exists_of_isOk {tree : Json} {property : Node -> Prop} (h : (decode tree).isOk = true)
    (hproperty : forall node, decode tree = .ok node -> property node) :
    exists node, decode tree = .ok node ∧ property node := by
  cases hdecode : decode tree with
  | error error =>
      rw [hdecode] at h
      cases h
  | ok node => exact ⟨node, rfl, hproperty node hdecode⟩

/-- A numbered type, keys too many and too few, a null location, and rows within a location. -/
theorem encode_decode_untidy_declaration :
    exists node,
      decode (.object [("location", .null), ("property", .string "a"), ("type", .int 6),
        ("value", .object [("children", .array [.object [("location", .array [.string "a.css",
          .array [.int 1, .int 3, .int 2], .object [("column", .int 4), ("file", .null),
          ("line", .int 1), ("offset", .int 3)]]), ("type", .string "Number"),
          ("value", .string "1")]]), ("name", .string "b"), ("type", .string "Value")])]) =
        .ok node ∧
      encode node = .object [("important", .bool false), ("property", .string "a"),
        ("type", .string "Declaration"), ("value", .object [("children", .array [.object
          [("location", .object [("end", .object [("column", .int 4), ("line", .int 1),
            ("offset", .int 3)]), ("sourceName", .string "a.css"), ("start", .object
            [("column", .int 3), ("line", .int 1), ("offset", .int 2)])]),
          ("type", .string "Number"), ("value", .string "1")]]), ("type", .string "Value")])] := by
  apply exists_of_isOk
  · decide +kernel
  · intro node hnode
    rw [encode_decode.2 _ node hnode]
    decide +kernel

/--
A row is read as a location and written again as an object, though no key is out of place or
missing, no location is null and no type is a number.
-/
theorem encode_decode_row_location :
    exists node,
      decode (.object [("location", .array [.string "a.css", .array [.int 1, .int 1, .int 0],
        .array [.int 1, .int 5, .int 4]]), ("type", .string "CDO")]) = .ok node ∧
      encode node = .object [("location", .object [("end", .object [("column", .int 5),
        ("line", .int 1), ("offset", .int 4)]), ("sourceName", .string "a.css"),
        ("start", .object [("column", .int 1), ("line", .int 1), ("offset", .int 0)])]),
        ("type", .string "CDO")] ∧
      encode node ≠ .object [("location", .array [.string "a.css",
        .array [.int 1, .int 1, .int 0], .array [.int 1, .int 5, .int 4]]),
        ("type", .string "CDO")] := by
  apply exists_of_isOk
  · decide +kernel
  · intro node hnode
    rw [encode_of_decode hnode]
    decide +kernel

end Plain
end Stylesheet
