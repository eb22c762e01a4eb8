import Stylesheet.Plain.Decode
import Stylesheet.Plain.Encode

/-!
# Fields of plain objects

A field of a node is read with one of seven readers.  What the readers do is said here by what
stands under the key, so that the types of nodes need no look at the lists of fields.
-/

namespace Stylesheet

theorem Except.bind_eq_ok {ε α β : Type} {first : Except ε α} {next : α -> Except ε β} {b : β}
    (h : (first >>= next) = .ok b) : exists a, first = .ok a ∧ next a = .ok b := by
  cases first with
  | error error => cases h
  | ok a => exact ⟨a, rfl, h⟩

namespace Json

variable {key : String} {fields : List (String × Json)}

/-! ## Lookup -/

theorem field?_cons (key other : String) (value : Json) (rest : List (String × Json)) :
    field? key ((other, value) :: rest) = if key = other then some value else field? key rest := by
  unfold field?
  rw [List.lookup_cons]
  by_cases h : key = other
  · rw [if_pos h, beq_iff_eq.mpr h]
  · rw [if_neg h, beq_eq_false_iff_ne.mpr h]

theorem field?_insertField_of_ne {other : String} (h : key ≠ other) (value : Json) :
    field? key (insertField other value fields) = field? key fields := by
  induction fields with
  | nil => rw [insertField, field?_cons, if_neg h]
  | cons head rest ih =>
      rcases head with ⟨k, v⟩
      rw [insertField]
      split
      · rw [field?_cons, if_neg h]
      · rw [field?_cons, field?_cons, ih]

theorem field?_insertField_self (h : field? key fields = none) (value : Json) :
    field? key (insertField key value fields) = some value := by
  induction fields with
  | nil => rw [insertField, field?_cons, if_pos rfl]
  | cons head rest ih =>
      rcases head with ⟨k, v⟩
      rw [field?_cons] at h
      have hne : key ≠ k := by
        intro heq
        rw [if_pos heq] at h
        cases h
      rw [if_neg hne] at h
      rw [insertField]
      split
      · rw [field?_cons, if_pos rfl]
      · rw [field?_cons, if_neg hne, ih h]

theorem field?_insertField?_of_ne {other : String} (h : key ≠ other) (value : Option Json) :
    field? key (insertField? other value fields) = field? key fields := by
  cases value with
  | none => rfl
  | some value => exact field?_insertField_of_ne h value

theorem field?_insertField?_self (h : field? key fields = none) (value : Option Json) :
    field? key (insertField? key value fields) = value := by
  cases value with
  | none => exact h
  | some value => exact field?_insertField_self h value

/-! ## Readers -/

variable {α : Type} {read : Json -> Except Problem α}

theorem readField?_eq_ok {found : Option α} (h : readField? fields key read = .ok found) :
    field? key fields = none ∧ found = none ∨
      exists value a, field? key fields = some value ∧ read value = .ok a ∧ found = some a := by
  unfold readField? at h
  split at h
  · rename_i hfield
    cases h
    exact Or.inl ⟨hfield, rfl⟩
  · rename_i value hfield
    cases hread : read value with
    | error problem =>
        rw [hread] at h
        cases h
    | ok a =>
        rw [hread] at h
        cases h
        exact Or.inr ⟨value, a, hfield, hread, rfl⟩

theorem readField?_of_field? {value : Json} {a : α} (h : field? key fields = some value)
    (hread : read value = .ok a) : readField? fields key read = .ok (some a) := by
  unfold readField?
  rw [h]
  dsimp only
  rw [hread]
  rfl

/-- A required field that was read stands under its key. -/
theorem field?_of_required {found : Option α} {a : α} (h : readField? fields key read = .ok found)
    (hrequired : required key found = .ok a) :
    exists value, field? key fields = some value ∧ read value = .ok a := by
  rcases readField?_eq_ok h with ⟨_, rfl⟩ | ⟨value, b, hfield, hread, rfl⟩
  · cases hrequired
  · cases hrequired
    exact ⟨value, hfield, hread⟩

theorem readUnlessNull_of_ne_null {value : Json} (h : value ≠ .null) :
    readUnlessNull read value = (read value).map some := by
  cases value with
  | null => exact absurd rfl h
  | _ => rfl

/-- A field that may be null was absent or null, or something was read. -/
theorem readNullable_eq_ok {found : Option α} (h : readNullable fields key read = .ok found) :
    (field? key fields = none ∨ field? key fields = some .null) ∧ found = none ∨
      exists value a, field? key fields = some value ∧ value ≠ .null ∧ read value = .ok a ∧
        found = some a := by
  unfold readNullable at h
  split at h
  · rename_i hfield
    cases h
    exact Or.inl ⟨Or.inl hfield, rfl⟩
  · rename_i value hfield
    by_cases hnull : value = .null
    · subst hnull
      cases h
      exact Or.inl ⟨Or.inr hfield, rfl⟩
    · rw [readUnlessNull_of_ne_null hnull] at h
      cases hread : read value with
      | error problem =>
          rw [hread] at h
          cases h
      | ok a =>
          rw [hread] at h
          cases h
          exact Or.inr ⟨value, a, hfield, hnull, hread, rfl⟩

theorem readNullable_of_null (h : field? key fields = some .null) :
    readNullable fields key read = .ok none := by
  unfold readNullable
  rw [h]
  rfl

theorem readNullable_of_field? {value : Json} {a : α} (h : field? key fields = some value)
    (hnull : value ≠ .null) (hread : read value = .ok a) :
    readNullable fields key read = .ok (some a) := by
  unfold readNullable
  rw [h]
  dsimp only
  rw [readUnlessNull_of_ne_null hnull, hread]
  rfl

theorem readText_eq_ok {value : Json} {text : String} (h : readText value = .ok text) :
    value = .string text := by
  unfold readText at h
  split at h
  · cases h
    rfl
  · cases h

theorem readFlag_eq_ok {value : Json} {flag : Bool} (h : readFlag value = .ok flag) :
    value = .bool flag := by
  unfold readFlag at h
  split at h
  · cases h
    rfl
  · cases h

theorem readIndex_eq_ok {value : Json} {n : Nat} (h : readIndex value = .ok n) :
    value = .int n := by
  unfold readIndex at h
  split at h
  · split at h
    · cases h
    · rename_i hsign
      cases h
      rw [Int.toNat_of_nonneg (Int.not_lt.mp hsign)]
  · cases h

theorem readIndex_int (n : Nat) : readIndex (.int n) = .ok n := by
  unfold readIndex
  dsimp only
  rw [if_neg (Int.not_lt.mpr (Int.natCast_nonneg n)), Int.toNat_natCast]

end Json

namespace Plain

open Json (Problem Surplus readField? readNullable readSequence)

/-! ## Readers of children -/

variable {fields : List (String × Json)}

/-- A reader of nodes that pays no attention to the size of what it reads. -/
def unsized (fields : List (String × Json)) (read : Json -> Except Problem Node) :
    ChildReader fields :=
  fun value _ => read value

variable (read : Json -> Except Problem Node) (key : String)

theorem readNode?_unsized :
    readNode? (unsized fields read) key = readField? fields key read := by
  unfold readNode? readField?
  split
  · rename_i hfield
    rw [hfield]
  · rename_i value hfield
    change (read value).map some = _
    rw [hfield]

theorem readNullableNode_unsized :
    readNullableNode (unsized fields read) key = readNullable fields key read := by
  unfold readNullableNode readNullable
  split
  · rename_i hfield
    rw [hfield]
  · rename_i hfield
    rw [hfield]
    rfl
  · rename_i value hnull hfield
    change (read value).map some = _
    rw [hfield]
    exact (Json.readUnlessNull_of_ne_null hnull).symm

theorem readItems_unsized (items : List Json) (h : sizeOf items < sizeOf fields) :
    readItems (unsized fields read) items h = items.mapM read := by
  change items.attach.mapM (read ∘ Subtype.val) = items.mapM read
  rw [← List.mapM_map, List.attach_map_subtype_val]

theorem readNodes_unsized (value : Json) (h : sizeOf value < sizeOf fields) :
    readNodes (unsized fields read) value h = readSequence read value := by
  cases value with
  | array items =>
      rw [readNodes, readItems_unsized]
      rfl
  | _ => rfl

theorem readNodes?_unsized :
    readNodes? (unsized fields read) key = readField? fields key (readSequence read) := by
  unfold readNodes? readField?
  split
  · rename_i hfield
    rw [hfield]
  · rename_i value hfield
    rw [readNodes_unsized, hfield]

theorem readNullableNodes_unsized :
    readNullableNodes (unsized fields read) key =
      readNullable fields key (readSequence read) := by
  unfold readNullableNodes readNullable
  split
  · rename_i hfield
    rw [hfield]
  · rename_i hfield
    rw [hfield]
    rfl
  · rename_i value hnull hfield
    rw [readNodes_unsized, hfield]
    exact (Json.readUnlessNull_of_ne_null hnull).symm

/-- How an object is read: the location, the type, and what belongs to the type. -/
theorem readTree_object (surplus : Surplus) :
    readTree surplus (.object fields) = (do
      let location <- readNullable fields "location" (readLocation surplus)
      let type <- readType fields
      let construct <- readConstruct (unsized fields (readTree .counted)) type
      return ⟨construct, location⟩) := by
  rw [readTree]
  rfl

end Plain
end Stylesheet
