/-!
# Variable-length quantities

An integer of 64 bits is written as a row of base-64 digits of six bits.  The lowest bit
of the number that is written is the sign and the rest is the magnitude; five bits go
into each digit, the lowest first, and the sixth bit says that more digits follow.  The
magnitude is doubled within 64 bits, so that of the least integer only the sign is left.
-/

namespace Stylesheet
namespace Vlq

/-- The base-64 digits in the order of their values. -/
def alphabet : List Char :=
  "ABCDEFGHIJKLMNOPQRSTUVWXYZabcdefghijklmnopqrstuvwxyz0123456789+/".toList

/-- The digit of a value below 64. -/
def digit (value : Nat) : Char :=
  alphabet.getD value '/'

/-- The value of a digit. -/
def digitValue? (c : Char) : Option Nat :=
  alphabet.idxOf? c

/-- How many integers of 64 bits there are. -/
def modulus : Nat := 18446744073709551616

/-- The number that is written for an integer. -/
def payload (value : Int) : Nat :=
  2 * value.natAbs % modulus + (if value < 0 then 1 else 0)

/-- The integer that a number is written for. -/
def ofPayload (payload : Nat) : Int :=
  if payload % 2 = 0 then (payload / 2 : Nat) else -(payload / 2 : Nat)

/-- The values of the digits of a number, the lowest first; all but the last announce more. -/
def groups (payload : Nat) : List Nat :=
  if payload < 32 then [payload]
  else (payload % 32 + 32) :: groups (payload / 32)
termination_by payload
decreasing_by omega

/-- The digits of an integer. -/
def encode (value : Int) : String :=
  String.ofList ((groups (payload value)).map digit)

/-- Reads the number at the front of a text, and what follows. -/
def readPayload? : List Char -> Option (Nat × List Char)
  | [] => none
  | c :: rest =>
      match digitValue? c with
      | none => none
      | some value =>
          if value < 32 then
            some (value, rest)
          else
            (readPayload? rest).map fun (higher, after) => (value - 32 + 32 * higher, after)

/-- Reading a number leaves less to read. -/
theorem readPayload?_length_lt {text rest : List Char} {payload : Nat}
    (h : readPayload? text = some (payload, rest)) : rest.length < text.length := by
  induction text generalizing payload rest with
  | nil =>
      cases h
  | cons c more ih =>
      unfold readPayload? at h
      split at h
      · cases h
      · split at h
        · cases h
          exact Nat.lt_succ_self _
        · obtain ⟨⟨higher, after⟩, hmore, heq⟩ := Option.map_eq_some_iff.mp h
          cases heq
          exact Nat.lt_succ_of_lt (ih hmore)

/-- Reads the integers that a text consists of. -/
def readAll? (text : List Char) : Option (List Int) :=
  match text with
  | [] => some []
  | c :: rest =>
      match _h : readPayload? (c :: rest) with
      | none => none
      | some (payload, after) => (readAll? after).map (ofPayload payload :: ·)
termination_by text.length
decreasing_by exact readPayload?_length_lt _h

end Vlq
end Stylesheet
