import Stylesheet.Json.Basic
import Stylesheet.Text.Printable

/-!
# Reading JSON values

Readers for the shapes that records are made of, and the problems they report.  A record
is an object or a row.  An object is read field by field in the order of the keys; only
then a field that is missing is reported, in the order in which the record declares its
fields.  A row is an array of the fields in the order of their declaration.
-/

namespace Stylesheet
namespace Json

/-- What a reader was looking for. -/
inductive Expectation where
  | text
  | flag
  | sequence
  | index
  | byte
  | typeName
  | typeIndex
  | record (name : String)
deriving DecidableEq, Repr

/-- What is said of a row that is too long: that it is, or how long it should be. -/
inductive Surplus where
  | unspecified
  | counted
deriving DecidableEq, Repr

/-- Why a value could not be read. -/
inductive Problem where
  | wrongType (found : Json) (expected : Expectation)
  | outOfRange (found : Int) (expected : Expectation)
  | missing (field : String)
  | tooShort (length : Nat) (record : String) (count : Nat)
  | tooLong (length : Nat) (surplus : Surplus) (count : Nat)
deriving Repr

/-! ## Wording -/

/-- How an expectation is worded. -/
def Expectation.wording : Expectation -> String
  | text => "a string"
  | flag => "a boolean"
  | sequence => "a sequence"
  | index => "usize"
  | byte => "u8"
  | typeName => "variant identifier"
  | typeIndex => "variant index 0 <= i < 40"
  | record name => "struct " ++ name

/-- The hexadecimal digits of a number, the highest first. -/
def hexDigits (n : Nat) : List Char :=
  Nat.toDigits 16 n

/-- A character as a message shows it between quotes. -/
def shown (c : Char) : List Char :=
  match c with
  | '"' => ['\\', '"']
  | '\\' => ['\\', '\\']
  | '\t' => ['\\', 't']
  | '\n' => ['\\', 'n']
  | '\r' => ['\\', 'r']
  | '\x00' => ['\\', '0']
  | c =>
      if Character.isPrintable c then
        [c]
      else
        ['\\', 'u', '\x7b'] ++ hexDigits c.toNat ++ ['\x7d']

/-- How a message names a value that it did not expect. -/
def wording : Json -> String
  | null => "null"
  | bool true => "boolean `true`"
  | bool false => "boolean `false`"
  | int value => "integer `" ++ toString value ++ "`"
  | string value => "string \"" ++ String.ofList (value.toList.flatMap shown) ++ "\""
  | array _ => "sequence"
  | object _ => "map"

/-- How the length of a row that is too long is worded. -/
def Surplus.wording (count : Nat) : Surplus -> String
  | unspecified => "fewer elements in array"
  | counted => toString count ++ " elements in sequence"

/-- The text of a problem. -/
def Problem.text : Problem -> String
  | wrongType found expected =>
      "invalid type: " ++ found.wording ++ ", expected " ++ expected.wording
  | outOfRange found expected =>
      "invalid value: " ++ (Json.int found).wording ++ ", expected " ++ expected.wording
  | missing field => "missing field `" ++ field ++ "`"
  | tooShort length record count =>
      "invalid length " ++ toString length ++ ", expected struct " ++ record ++ " with " ++
        toString count ++ " elements"
  | tooLong length surplus count =>
      "invalid length " ++ toString length ++ ", expected " ++ surplus.wording count

/-! ## Values -/

def readText : Json -> Except Problem String
  | string value => .ok value
  | other => .error (.wrongType other .text)

def readFlag : Json -> Except Problem Bool
  | bool value => .ok value
  | other => .error (.wrongType other .flag)

/-- A count: an integer that is not negative. -/
def readIndex : Json -> Except Problem Nat
  | int value => if value < 0 then .error (.outOfRange value .index) else .ok value.toNat
  | other => .error (.wrongType other .index)

/-- An integer from 0 to 255. -/
def readByte : Json -> Except Problem Nat
  | int value =>
      if value < 0 || 255 < value then .error (.outOfRange value .byte) else .ok value.toNat
  | other => .error (.wrongType other .byte)

/-- A sequence whose items are all read by one reader. -/
def readSequence (read : Json -> Except Problem α) : Json -> Except Problem (List α)
  | array items => items.mapM read
  | other => .error (.wrongType other .sequence)

/-- A value that may be null. -/
def readUnlessNull (read : Json -> Except Problem α) : Json -> Except Problem (Option α)
  | null => .ok none
  | value => (read value).map some

/-! ## Fields -/

/-- A field that may be absent. -/
def readField? (fields : List (String × Json)) (key : String)
    (read : Json -> Except Problem α) : Except Problem (Option α) :=
  match field? key fields with
  | none => .ok none
  | some value => (read value).map some

/-- A field that may be absent or null. -/
def readNullable (fields : List (String × Json)) (key : String)
    (read : Json -> Except Problem α) : Except Problem (Option α) :=
  match field? key fields with
  | none => .ok none
  | some value => readUnlessNull read value

/-- Insists on a field whose value has been looked for. -/
def required (key : String) : Option α -> Except Problem α
  | some value => .ok value
  | none => .error (.missing key)

/-! ## Rows -/

/-- An element that may be absent, since the row may end before it. -/
def readElement? (row : List Json) (index : Nat) (read : Json -> Except Problem α) :
    Except Problem (Option α) :=
  match row[index]? with
  | none => .ok none
  | some value => (read value).map some

/-- An element of a row for a record of that name, which has so many fields. -/
def readElement (record : String) (count : Nat) (row : List Json) (index : Nat)
    (read : Json -> Except Problem α) : Except Problem α :=
  match row[index]? with
  | none => .error (.tooShort row.length record count)
  | some value => read value

/-- Insists that a row ends with the last field of a record. -/
def endRow (surplus : Surplus) (count : Nat) (row : List Json) : Except Problem Unit :=
  if row.length ≤ count then .ok () else .error (.tooLong row.length surplus count)

end Json
end Stylesheet
