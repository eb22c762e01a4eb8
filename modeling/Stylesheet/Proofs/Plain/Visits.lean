import Mathlib.Data.String.Basic
import Stylesheet.Plain.Generate
import Stylesheet.Proofs.Plain.Fields

/-!
# Unknown types

The types in a plain tree stand at the ends of paths, and the paths have an order: an object comes
before its values, the values come in the order of their keys, the items of an array in the order
of the array.  Main statement: a tree has an unknown type on a path that leads through no location
just when reading it reports one, and the one it reports is the first.
-/

namespace Stylesheet

/-! ## Trees with ordered keys -/

namespace Json

mutual

/-- The keys of every object increase. -/
def isOrdered : Json -> Bool
  | .object fields => decide ((fields.map Prod.fst).Pairwise (· < ·)) && fieldsOrdered fields
  | .array items => itemsOrdered items
  | _ => true

def itemsOrdered : List Json -> Bool
  | [] => true
  | item :: rest => item.isOrdered && itemsOrdered rest

def fieldsOrdered : List (String × Json) -> Bool
  | [] => true
  | (_, value) :: rest => value.isOrdered && fieldsOrdered rest

end

/-- With increasing keys, a field is found under its key. -/
theorem mem_iff_field? {fields : List (String × Json)}
    (h : (fields.map Prod.fst).Pairwise (· < ·)) {key : String} {value : Json} :
    (key, value) ∈ fields <-> field? key fields = some value := by
  induction fields with
  | nil => exact iff_of_false List.not_mem_nil fun h => nomatch h
  | cons head rest ih =>
      rcases head with ⟨first, inner⟩
      rw [List.map_cons, List.pairwise_cons] at h
      rw [List.mem_cons, Prod.mk.injEq, field?_cons, ih h.right]
      by_cases hkey : key = first
      · have hnone : field? key rest ≠ some value := by
          rw [Ne, ← ih h.right]
          intro hmem
          have hlt := h.left key (List.mem_map_of_mem (f := Prod.fst) hmem)
          exact absurd (hkey ▸ hlt) (lt_irrefl _)
        rw [if_pos hkey, Option.some.injEq]
        exact ⟨fun h => h.elim (fun h => h.right.symm) fun h => absurd h hnone,
          fun h => Or.inl ⟨hkey, h.symm⟩⟩
      · rw [if_neg hkey]
        exact ⟨fun h => h.elim (fun h => absurd h.left hkey) id, Or.inr⟩

end Json

namespace Plain

/-! ## Paths -/

/-- A step into a plain tree: to the value under a key, or to the item at an index. -/
inductive Step where
  | key (name : String)
  | index (number : Nat)
deriving DecidableEq, Repr

/-- A tag is the type of the object at the end of a path that enters no location. -/
inductive TagAt : Json -> List Step -> String -> Prop
  | own {fields : List (String × Json)} {tag : String}
      (htag : Json.field? "type" fields = some (.string tag)) : TagAt (.object fields) [] tag
  | field {fields : List (String × Json)} {key : String} {value : Json} {path : List Step}
      {tag : String} (hkey : key ≠ "location") (hvalue : Json.field? key fields = some value)
      (htag : TagAt value path tag) : TagAt (.object fields) (.key key :: path) tag
  | item {items : List Json} {number : Nat} {item : Json} {path : List Step} {tag : String}
      (hitem : items[number]? = some item) (htag : TagAt item path tag) :
      TagAt (.array items) (.index number :: path) tag

/-- The order of paths. -/
inductive Earlier : List Step -> List Step -> Prop
  | outer (step : Step) (path : List Step) : Earlier [] (step :: path)
  | key {name name' : String} (h : name < name') (path path' : List Step) :
      Earlier (.key name :: path) (.key name' :: path')
  | index {number number' : Nat} (h : number < number') (path path' : List Step) :
      Earlier (.index number :: path) (.index number' :: path')
  | inner (step : Step) {path path' : List Step} (h : Earlier path path') :
      Earlier (step :: path) (step :: path')

/-- An unknown type in a tree, in front of which all types are known. -/
def IsFirstUnknown (tree : Json) (tag : String) : Prop :=
  exists path, TagAt tree path tag ∧ tag ∉ NodeType.names ∧
    forall path' tag', TagAt tree path' tag' -> Earlier path' path -> tag' ∈ NodeType.names

theorem Earlier.asymm {path path' : List Step} (h : Earlier path path') :
    ¬ Earlier path' path := by
  induction h with
  | outer => exact fun h => nomatch h
  | key hlt =>
      intro h
      cases h with
      | key hlt' => exact lt_asymm hlt hlt'
      | inner => exact lt_irrefl _ hlt
  | index hlt =>
      intro h
      cases h with
      | index hlt' => exact lt_asymm hlt hlt'
      | inner => exact lt_irrefl _ hlt
  | inner step _ ih =>
      intro h
      cases h with
      | key hlt => exact lt_irrefl _ hlt
      | index hlt => exact lt_irrefl _ hlt
      | inner _ h => exact ih h

/-! ## Visits -/

/-- A type and the path to it. -/
abbrev Visit :=
  List Step × String

/-- A visit from one step further out. -/
def Visit.under (step : Step) (visit : Visit) : Visit :=
  (step :: visit.1, visit.2)

mutual

/-- The types in a tree with their paths, in the order in which they are looked at. -/
def visits : Json -> List Visit
  | .object fields => (ownTag? fields).toList.map (fun tag => ([], tag)) ++ fieldVisits fields
  | .array items => itemVisits 0 items
  | _ => []

def itemVisits (number : Nat) : List Json -> List Visit
  | [] => []
  | item :: rest =>
      (visits item).map (Visit.under (.index number)) ++ itemVisits (number + 1) rest

def fieldVisits : List (String × Json) -> List Visit
  | [] => []
  | (key, value) :: rest =>
      if key = "location" then fieldVisits rest
      else (visits value).map (Visit.under (.key key)) ++ fieldVisits rest

end

theorem map_snd_under (step : Step) (row : List Visit) :
    (row.map (Visit.under step)).map Prod.snd = row.map Prod.snd := by
  rw [List.map_map]
  rfl

mutual

/-- The types that are looked at are those of the visits. -/
theorem map_snd_visits : forall tree, (visits tree).map Prod.snd = typeTags tree
  | .object fields => by
      rw [visits, typeTags, List.map_append, map_snd_fieldVisits, List.map_map]
      exact congrArg (· ++ _) (List.map_id _)
  | .array items => map_snd_itemVisits 0 items
  | .null | .bool _ | .int _ | .string _ => rfl

theorem map_snd_itemVisits : forall number items,
    (itemVisits number items).map Prod.snd = itemTags items
  | _, [] => rfl
  | number, item :: rest => by
      rw [itemVisits, itemTags, List.map_append, map_snd_under, map_snd_visits item,
        map_snd_itemVisits (number + 1) rest]

theorem map_snd_fieldVisits : forall fields,
    (fieldVisits fields).map Prod.snd = fieldTags fields
  | [] => rfl
  | (key, value) :: rest => by
      rw [fieldVisits, fieldTags]
      split
      · exact map_snd_fieldVisits rest
      · rw [List.map_append, map_snd_under, map_snd_visits value, map_snd_fieldVisits rest]

end

/-! ## Where the visits lead -/

theorem ownTag?_eq_some {fields : List (String × Json)} {tag : String} :
    ownTag? fields = some tag <-> Json.field? "type" fields = some (.string tag) := by
  unfold ownTag?
  split
  · rename_i own hown
    rw [hown, Option.some.injEq, Option.some.injEq, Json.string.injEq]
  · rename_i hother
    exact iff_of_false (fun h => nomatch h) fun h => hother tag h

theorem mem_map_under {step : Step} {row : List Visit} {path : List Step} {tag : String} :
    (path, tag) ∈ row.map (Visit.under step) <->
      exists rest, path = step :: rest ∧ (rest, tag) ∈ row := by
  rw [List.mem_map]
  constructor
  · rintro ⟨⟨rest, tag⟩, hmem, heq⟩
    cases heq
    exact ⟨rest, rfl, hmem⟩
  · rintro ⟨rest, rfl, hmem⟩
    exact ⟨(rest, tag), hmem, rfl⟩

mutual

/-- The visits are to the types of the tree. -/
theorem mem_visits : forall {tree}, tree.isOrdered = true -> forall {path tag},
    (path, tag) ∈ visits tree <-> TagAt tree path tag
  | .object fields, h, path, tag => by
      rw [Json.isOrdered, Bool.and_eq_true, decide_eq_true_iff] at h
      rw [visits, List.mem_append, mem_fieldVisits h.right, List.mem_map]
      constructor
      · rintro (⟨own, hown, heq⟩ | ⟨key, value, rest, hmem, hkey, rfl, htag⟩)
        · cases heq
          exact .own (ownTag?_eq_some.mp (Option.mem_toList.mp hown))
        · exact .field hkey ((Json.mem_iff_field? h.left).mp hmem) htag
      · intro htag
        cases htag with
        | own htag => exact Or.inl ⟨tag, Option.mem_toList.mpr (ownTag?_eq_some.mpr htag), rfl⟩
        | field hkey hvalue htag =>
            exact Or.inr ⟨_, _, _, (Json.mem_iff_field? h.left).mpr hvalue, hkey, rfl, htag⟩
  | .array items, h, path, tag => by
      rw [Json.isOrdered] at h
      rw [visits, mem_itemVisits h]
      constructor
      · rintro ⟨offset, item, rest, hitem, rfl, htag⟩
        rw [Nat.zero_add]
        exact .item hitem htag
      · intro htag
        cases htag with
        | item hitem htag => exact ⟨_, _, _, hitem, by rw [Nat.zero_add], htag⟩
  | .null, _, _, _ | .bool _, _, _, _ | .int _, _, _, _ | .string _, _, _, _ =>
      iff_of_false (fun h => nomatch h) fun h => nomatch h

theorem mem_itemVisits : forall {number items}, Json.itemsOrdered items = true ->
    forall {path tag}, (path, tag) ∈ itemVisits number items <->
      exists offset item rest, items[offset]? = some item ∧
        path = .index (number + offset) :: rest ∧ TagAt item rest tag
  | _, [], _, _, _ => by
      refine iff_of_false (fun h => nomatch h) ?_
      rintro ⟨offset, item, rest, hitem, -⟩
      cases hitem
  | number, item :: rest, h, path, tag => by
      rw [Json.itemsOrdered, Bool.and_eq_true] at h
      rw [itemVisits, List.mem_append, mem_map_under, mem_itemVisits h.right]
      constructor
      · rintro (⟨inner, rfl, hmem⟩ | ⟨offset, other, inner, hitem, rfl, htag⟩)
        · exact ⟨0, item, inner, rfl, rfl, (mem_visits h.left).mp hmem⟩
        · exact ⟨offset + 1, other, inner, hitem, by rw [Nat.add_assoc, Nat.add_comm 1], htag⟩
      · rintro ⟨offset, other, inner, hitem, rfl, htag⟩
        cases offset with
        | zero =>
            cases hitem
            exact Or.inl ⟨inner, rfl, (mem_visits h.left).mpr htag⟩
        | succ offset =>
            exact Or.inr ⟨offset, other, inner, hitem, by rw [Nat.add_assoc, Nat.add_comm 1], htag⟩

theorem mem_fieldVisits : forall {fields}, Json.fieldsOrdered fields = true ->
    forall {path tag}, (path, tag) ∈ fieldVisits fields <->
      exists key value rest, (key, value) ∈ fields ∧ key ≠ "location" ∧
        path = .key key :: rest ∧ TagAt value rest tag
  | [], _, _, _ => by
      refine iff_of_false (fun h => nomatch h) ?_
      rintro ⟨key, value, rest, hmem, -⟩
      cases hmem
  | (key, value) :: rest, h, path, tag => by
      rw [Json.fieldsOrdered, Bool.and_eq_true] at h
      rw [fieldVisits]
      split
      · rename_i hlocation
        rw [mem_fieldVisits h.right]
        constructor
        · rintro ⟨other, inner, more, hmem, hfield⟩
          exact ⟨other, inner, more, List.mem_cons_of_mem _ hmem, hfield⟩
        · rintro ⟨other, inner, more, hmem, hkey, hfield⟩
          rcases List.mem_cons.mp hmem with heq | hmem
          · cases heq
            exact absurd hlocation hkey
          · exact ⟨other, inner, more, hmem, hkey, hfield⟩
      · rename_i hkey
        rw [List.mem_append, mem_map_under, mem_fieldVisits h.right]
        constructor
        · rintro (⟨inner, rfl, hmem⟩ | ⟨other, inner, more, hmem, hfield⟩)
          · exact ⟨key, value, inner, List.mem_cons_self, hkey, rfl, (mem_visits h.left).mp hmem⟩
          · exact ⟨other, inner, more, List.mem_cons_of_mem _ hmem, hfield⟩
        · rintro ⟨other, inner, more, hmem, hother, rfl, htag⟩
          rcases List.mem_cons.mp hmem with heq | hmem
          · cases heq
            exact Or.inl ⟨more, rfl, (mem_visits h.left).mpr htag⟩
          · exact Or.inr ⟨other, inner, more, hmem, hother, rfl, htag⟩

end

/-! ## The order of the visits -/

/-- The order of two visits is that of their paths. -/
def Visit.Earlier (visit visit' : Visit) : Prop :=
  Plain.Earlier visit.1 visit'.1

theorem pairwise_map_under (step : Step) {row : List Visit} (h : row.Pairwise Visit.Earlier) :
    (row.map (Visit.under step)).Pairwise Visit.Earlier :=
  h.map _ fun _ _ hearlier => .inner step hearlier

mutual

theorem pairwise_visits : forall {tree}, tree.isOrdered = true ->
    (visits tree).Pairwise Visit.Earlier
  | .object fields, h => by
      rw [Json.isOrdered, Bool.and_eq_true, decide_eq_true_iff] at h
      rw [visits, List.pairwise_append]
      refine ⟨?_, pairwise_fieldVisits h.left h.right, ?_⟩
      · cases ownTag? fields with
        | none => exact List.Pairwise.nil
        | some tag => exact List.pairwise_singleton ..
      · rintro visit hvisit ⟨path, tag⟩ hmem
        rcases List.mem_map.mp hvisit with ⟨own, -, rfl⟩
        rcases (mem_fieldVisits h.right).mp hmem with ⟨key, value, rest, -, -, rfl, -⟩
        exact .outer _ _
  | .array items, h => by
      rw [visits]
      exact pairwise_itemVisits h
  | .null, _ | .bool _, _ | .int _, _ | .string _, _ => List.Pairwise.nil

theorem pairwise_itemVisits : forall {number items}, Json.itemsOrdered items = true ->
    (itemVisits number items).Pairwise Visit.Earlier
  | _, [], _ => List.Pairwise.nil
  | number, item :: rest, h => by
      rw [Json.itemsOrdered, Bool.and_eq_true] at h
      rw [itemVisits, List.pairwise_append]
      refine ⟨pairwise_map_under _ (pairwise_visits h.left), pairwise_itemVisits h.right, ?_⟩
      rintro visit hvisit ⟨path, tag⟩ hmem
      rcases List.mem_map.mp hvisit with ⟨inner, -, rfl⟩
      rcases (mem_itemVisits h.right).mp hmem with ⟨offset, other, more, -, rfl, -⟩
      exact .index (by omega) _ _

theorem pairwise_fieldVisits : forall {fields}, (fields.map Prod.fst).Pairwise (· < ·) ->
    Json.fieldsOrdered fields = true -> (fieldVisits fields).Pairwise Visit.Earlier
  | [], _, _ => List.Pairwise.nil
  | (key, value) :: rest, hkeys, h => by
      rw [List.map_cons, List.pairwise_cons] at hkeys
      rw [Json.fieldsOrdered, Bool.and_eq_true] at h
      have hrest := pairwise_fieldVisits hkeys.right h.right
      rw [fieldVisits]
      split
      · exact hrest
      · rw [List.pairwise_append]
        refine ⟨pairwise_map_under _ (pairwise_visits h.left), hrest, ?_⟩
        rintro visit hvisit ⟨path, tag⟩ hmem
        rcases List.mem_map.mp hvisit with ⟨inner, -, rfl⟩
        rcases (mem_fieldVisits h.right).mp hmem with ⟨other, _, more, hfield, -, rfl, -⟩
        exact .key (hkeys.left other (List.mem_map_of_mem (f := Prod.fst) hfield)) _ _

end

/-! ## The first unknown type -/

theorem isKnown_iff {tag : String} : NodeType.isKnown tag = true <-> tag ∈ NodeType.names :=
  List.contains_iff_mem

/-- In a row in the order of its paths, the first unknown type has no unknown one before it. -/
theorem find?_eq_some_iff {row : List Visit} (h : row.Pairwise Visit.Earlier) {tag : String} :
    ((row.map Prod.snd).find? fun tag => !NodeType.isKnown tag) = some tag <->
      exists path, (path, tag) ∈ row ∧ tag ∉ NodeType.names ∧
        forall path' tag', (path', tag') ∈ row -> Earlier path' path -> tag' ∈ NodeType.names := by
  induction row with
  | nil =>
      refine iff_of_false (fun h => nomatch h) ?_
      rintro ⟨path, hmem, -⟩
      cases hmem
  | cons visit rest ih =>
      rcases visit with ⟨first, own⟩
      rw [List.pairwise_cons] at h
      rw [List.map_cons]
      by_cases hown : own ∈ NodeType.names
      · rw [List.find?_cons_of_neg (by simp [isKnown_iff.mpr hown]), ih h.right]
        constructor
        · rintro ⟨path, hmem, hunknown, hbefore⟩
          refine ⟨path, List.mem_cons_of_mem _ hmem, hunknown, ?_⟩
          intro path' tag' hmem' hearlier
          rcases List.mem_cons.mp hmem' with heq | hmem'
          · cases heq
            exact hown
          · exact hbefore path' tag' hmem' hearlier
        · rintro ⟨path, hmem, hunknown, hbefore⟩
          rcases List.mem_cons.mp hmem with heq | hmem
          · cases heq
            exact absurd hown hunknown
          · exact ⟨path, hmem, hunknown,
              fun path' tag' hmem' => hbefore path' tag' (List.mem_cons_of_mem _ hmem')⟩
      · have hknown : NodeType.isKnown own = false := by
          rw [← Bool.not_eq_true, isKnown_iff]
          exact hown
        rw [List.find?_cons_of_pos (by simp [hknown]), Option.some.injEq]
        constructor
        · rintro rfl
          refine ⟨first, List.mem_cons_self, hown, ?_⟩
          intro path' tag' hmem' hearlier
          rcases List.mem_cons.mp hmem' with heq | hmem'
          · cases heq
            exact absurd hearlier hearlier.asymm
          · exact absurd hearlier (h.left (path', tag') hmem').asymm
        · rintro ⟨path, hmem, -, hbefore⟩
          rcases List.mem_cons.mp hmem with heq | hmem
          · cases heq
            rfl
          · exact absurd (hbefore first own List.mem_cons_self (h.left (path, tag) hmem)) hown

theorem unknownTag?_eq_some_iff {tree : Json} (h : tree.isOrdered = true) {tag : String} :
    unknownTag? tree = some tag <-> IsFirstUnknown tree tag := by
  rw [unknownTag?, ← map_snd_visits, find?_eq_some_iff (pairwise_visits h), IsFirstUnknown]
  simp only [mem_visits h]

theorem unknownTag?_eq_none_iff {tree : Json} (h : tree.isOrdered = true) :
    unknownTag? tree = none <-> forall path tag, TagAt tree path tag -> tag ∈ NodeType.names := by
  rw [unknownTag?, List.find?_eq_none, ← map_snd_visits]
  constructor
  · intro hknown path tag htag
    have hmem := List.mem_map_of_mem (f := Prod.snd) ((mem_visits h).mpr htag)
    exact isKnown_iff.mp (by simpa using hknown tag hmem)
  · intro hknown tag hmem
    rcases List.mem_map.mp hmem with ⟨⟨path, tag⟩, hvisit, rfl⟩
    simpa using isKnown_iff.mpr (hknown path tag ((mem_visits h).mp hvisit))

/-! ## Reading -/

theorem decode_of_unknownTag? {tree : Json} {tag : String} (h : unknownTag? tree = some tag) :
    decode tree = .error (.unknownType tag) := by
  rw [decode, h]

theorem decode_of_known {tree : Json} (h : unknownTag? tree = none) :
    (exists node, decode tree = .ok node) ∨
      exists problem, decode tree = .error (.malformed problem) := by
  rw [decode, h]
  cases readTree .unspecified tree with
  | ok node => exact Or.inl ⟨node, rfl⟩
  | error problem => exact Or.inr ⟨problem, rfl⟩

theorem decode_eq_unknownType {tree : Json} {tag : String} :
    decode tree = .error (.unknownType tag) <-> unknownTag? tree = some tag := by
  refine ⟨fun h => ?_, decode_of_unknownTag?⟩
  cases hunknown : unknownTag? tree with
  | none =>
      rcases decode_of_known hunknown with ⟨node, hok⟩ | ⟨problem, hmalformed⟩
      · rw [hok] at h
        cases h
      · rw [hmalformed] at h
        cases h
  | some first =>
      rw [decode_of_unknownTag? hunknown] at h
      cases h
      rfl

/-- Generating reports what reading reports. -/
theorem generateWith_eq_error {options : GenerateOptions} {tree : Json} {error : TreeError} :
    generateWith options tree = .error error <-> decode tree = .error error := by
  unfold generateWith
  cases decode tree with
  | ok node => exact iff_of_false (fun h => nomatch h) fun h => nomatch h
  | error first => rw [Except.map, Except.error.injEq, Except.error.injEq]

/--
Reading and generating report an unknown type just when a tree has one, and then the first;
otherwise reading gives a node, or the tree is malformed.
-/
theorem decode_unknownType {tree : Json} (h : tree.isOrdered = true) (options : GenerateOptions) :
    (forall tag, decode tree = .error (.unknownType tag) <-> IsFirstUnknown tree tag) ∧
      (forall tag, generateWith options tree = .error (.unknownType tag) <->
        IsFirstUnknown tree tag) ∧
      ((exists tag, decode tree = .error (.unknownType tag)) <->
        exists path tag, TagAt tree path tag ∧ tag ∉ NodeType.names) ∧
      ((forall path tag, TagAt tree path tag -> tag ∈ NodeType.names) ->
        (exists node, decode tree = .ok node) ∨
          exists problem, decode tree = .error (.malformed problem)) := by
  have hdecode : forall tag, decode tree = .error (.unknownType tag) <->
      IsFirstUnknown tree tag :=
    fun tag => decode_eq_unknownType.trans (unknownTag?_eq_some_iff h)
  refine ⟨hdecode, fun tag => generateWith_eq_error.trans (hdecode tag), ⟨?_, ?_⟩, ?_⟩
  · rintro ⟨tag, herror⟩
    rcases (hdecode tag).mp herror with ⟨path, htag, hunknown, -⟩
    exact ⟨path, tag, htag, hunknown⟩
  · rintro ⟨path, tag, htag, hunknown⟩
    cases hfirst : unknownTag? tree with
    | none => exact absurd ((unknownTag?_eq_none_iff h).mp hfirst path tag htag) hunknown
    | some first => exact ⟨first, decode_of_unknownTag? hfirst⟩
  · intro hknown
    exact decode_of_known ((unknownTag?_eq_none_iff h).mpr hknown)

/-- Two unknown types behind a location that is passed over, in a rule without a prelude. -/
def strayTypes : Json :=
  .object [("location", .object [("type", .string "Nowhere")]),
    ("other", .array [.int 1, .object [("type", .string "Bogus")]]), ("type", .string "Rule"),
    ("value", .object [("type", .string "rule")])]

theorem isFirstUnknown_strayTypes :
    strayTypes.isOrdered = true ∧ IsFirstUnknown strayTypes "Bogus" := by
  have hordered : strayTypes.isOrdered = true := by decide +kernel
  exact ⟨hordered, ((decode_unknownType hordered {}).left "Bogus").mp rfl⟩

end Plain
end Stylesheet
