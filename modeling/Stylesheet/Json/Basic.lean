/-!
# JSON values

Values whose numbers are integers.  An object is a list of fields; the trees that this
library builds list them in the order of their keys, and `insertField` keeps that order.
-/

namespace Stylesheet

inductive Json where
  | null
  | bool (value : Bool)
  | int (value : Int)
  | string (value : String)
  | array (items : List Json)
  | object (fields : List (String × Json))
deriving Inhabited, Repr

namespace Json

/-! ## Equality -/

mutual

/-- Whether two values are the same, fields compared in their order. -/
def same : Json -> Json -> Bool
  | null, null => true
  | bool a, bool b => a == b
  | int a, int b => a == b
  | string a, string b => a == b
  | array a, array b => sameItems a b
  | object a, object b => sameFields a b
  | _, _ => false

def sameItems : List Json -> List Json -> Bool
  | [], [] => true
  | a :: as, b :: bs => same a b && sameItems as bs
  | _, _ => false

def sameFields : List (String × Json) -> List (String × Json) -> Bool
  | [], [] => true
  | (j, a) :: as, (k, b) :: bs => j == k && same a b && sameFields as bs
  | _, _ => false

end

mutual

theorem same_iff : ∀ a b : Json, same a b = true ↔ a = b
  | null, b => by cases b <;> simp [same]
  | bool _, b => by cases b <;> simp [same]
  | int _, b => by cases b <;> simp [same]
  | string _, b => by cases b <;> simp [same]
  | array items, b => by cases b <;> simp [same, sameItems_iff items]
  | object fields, b => by cases b <;> simp [same, sameFields_iff fields]

theorem sameItems_iff : ∀ as bs : List Json, sameItems as bs = true ↔ as = bs
  | [], bs => by cases bs <;> simp [sameItems]
  | a :: as, bs => by cases bs <;> simp [sameItems, same_iff a, sameItems_iff as]

theorem sameFields_iff : ∀ as bs : List (String × Json), sameFields as bs = true ↔ as = bs
  | [], bs => by cases bs <;> simp [sameFields]
  | (j, a) :: as, [] => by simp [sameFields]
  | (j, a) :: as, (k, b) :: bs => by
      simp [sameFields, same_iff a, sameFields_iff as]

end

instance : DecidableEq Json := fun a b =>
  decidable_of_iff (same a b = true) (same_iff a b)

/-! ## Fields -/

/-- Adds a field in front of the first field whose key comes later. -/
def insertField (key : String) (value : Json) :
    List (String × Json) -> List (String × Json)
  | [] => [(key, value)]
  | (k, v) :: rest =>
      if key < k then
        (key, value) :: (k, v) :: rest
      else
        (k, v) :: insertField key value rest

/-- Adds a field in the order of the keys, if there is a value for it. -/
def insertField? (key : String) (value : Option Json) (fields : List (String × Json)) :
    List (String × Json) :=
  match value with
  | none => fields
  | some value => insertField key value fields

/-- The value under a key. -/
def field? (key : String) (fields : List (String × Json)) : Option Json :=
  fields.lookup key

/-- A value under a key is smaller than the fields it was found in. -/
theorem sizeOf_lt_of_field? {key : String} {fields : List (String × Json)} {value : Json}
    (h : field? key fields = some value) : sizeOf value < sizeOf fields := by
  unfold field? at h
  induction fields with
  | nil =>
      simp at h
  | cons head rest ih =>
      obtain ⟨k, v⟩ := head
      rw [List.lookup_cons] at h
      split at h
      · cases h
        simp
        omega
      · have := ih h
        simp
        omega

end Json

end Stylesheet
