import Stylesheet.Json.Basic

/-!
# JSON text

The two written forms of a value.  The compact form has no blanks; the pretty form puts
every item and every field on a line of its own, indented by two spaces a level, and
leaves an empty array or object on one line.  Only the two characters that a string must
escape and the control characters below the space are escaped.
-/

namespace Stylesheet
namespace Json

/-! ## Strings -/

/-- A digit of a hexadecimal escape, in lower case. -/
def hexDigit (n : Nat) : Char :=
  Char.ofNat (if n < 10 then '0'.toNat + n else 'a'.toNat + (n - 10))

/-- A character as it stands between quotes. -/
def escape (c : Char) : List Char :=
  match c with
  | '"' => ['\\', '"']
  | '\\' => ['\\', '\\']
  | '\x08' => ['\\', 'b']
  | '\t' => ['\\', 't']
  | '\n' => ['\\', 'n']
  | '\x0c' => ['\\', 'f']
  | '\r' => ['\\', 'r']
  | c =>
      if c.toNat < 0x20 then
        ['\\', 'u', '0', '0', hexDigit (c.toNat / 16), hexDigit (c.toNat % 16)]
      else
        [c]

/-- A string between quotes. -/
def quote (text : String) : String :=
  "\"" ++ String.ofList (text.toList.flatMap escape) ++ "\""

/-! ## Compact form -/

mutual

/-- The pieces of the form without blanks. -/
def compactPieces : Json -> List String
  | null => ["null"]
  | bool value => [if value then "true" else "false"]
  | int value => [toString value]
  | string value => [quote value]
  | array items => "[" :: compactItems items ++ ["]"]
  | object fields => "\x7b" :: compactFields fields ++ ["\x7d"]

def compactItems : List Json -> List String
  | [] => []
  | [item] => compactPieces item
  | item :: rest => compactPieces item ++ "," :: compactItems rest

def compactFields : List (String × Json) -> List String
  | [] => []
  | [(key, value)] => quote key :: ":" :: compactPieces value
  | (key, value) :: rest => quote key :: ":" :: compactPieces value ++ "," :: compactFields rest

end

/-- The form without blanks. -/
def compact (value : Json) : String :=
  String.join (compactPieces value)

/-! ## Pretty form -/

/-- A line feed and the indentation of a level. -/
def newline (level : Nat) : String :=
  String.ofList ('\n' :: List.replicate (2 * level) ' ')

mutual

/-- The pieces of the form with a line for every item and field, indented to a level. -/
def prettyPieces (level : Nat) : Json -> List String
  | array (item :: rest) =>
      "[" :: prettyItems (level + 1) (item :: rest) ++ [newline level, "]"]
  | object (field :: rest) =>
      "\x7b" :: prettyFields (level + 1) (field :: rest) ++ [newline level, "\x7d"]
  | array [] => ["[]"]
  | object [] => ["\x7b\x7d"]
  | null => ["null"]
  | bool value => [if value then "true" else "false"]
  | int value => [toString value]
  | string value => [quote value]

def prettyItems (level : Nat) : List Json -> List String
  | [] => []
  | [item] => newline level :: prettyPieces level item
  | item :: rest => newline level :: prettyPieces level item ++ "," :: prettyItems level rest

def prettyFields (level : Nat) : List (String × Json) -> List String
  | [] => []
  | [(key, value)] => newline level :: quote key :: ": " :: prettyPieces level value
  | (key, value) :: rest =>
      newline level :: quote key :: ": " :: prettyPieces level value ++
        "," :: prettyFields level rest

end

/-- The form with a line for every item and field. -/
def pretty (value : Json) : String :=
  String.join (prettyPieces 0 value)

end Json
end Stylesheet
