import Stylesheet.Text.Character

/-!
# Names

A name is a run of name characters and escapes.  An escape is a backslash before any
character but a line feed; when that character is a hexadecimal digit, up to five more
digits and then one space belong to the escape.  Spellings are kept as they are.
-/

namespace Stylesheet
namespace Name

open Character

/-- Whether a text begins with an escape. -/
def startsEscape : List Char -> Bool
  | '\\' :: c :: _ => c != '\n'
  | _ => false

/-- Splits one space off a text, if it begins with one. -/
def splitSpace : List Char -> List Char × List Char
  | c :: rest => if isSpace c then ([c], rest) else ([], c :: rest)
  | [] => ([], [])

/-- What belongs to an escape behind its first hexadecimal digit, and what follows. -/
def splitHexTail (text : List Char) : List Char × List Char :=
  let digits := (text.take 5).takeWhile isHexDigit
  let (space, rest) := splitSpace (text.drop digits.length)
  (digits ++ space, rest)

/-- The first name character or escape of a text, and what follows. -/
def splitUnit? : List Char -> Option (List Char × List Char)
  | [] => none
  | c :: rest =>
      if isNameChar c then
        some ([c], rest)
      else
        match c, rest with
        | '\\', d :: more =>
            if d == '\n' then
              none
            else if isHexDigit d then
              let (tail, after) := splitHexTail more
              some ('\\' :: d :: tail, after)
            else
              some (['\\', d], more)
        | _, _ => none

theorem splitSpace_append (text : List Char) :
    (splitSpace text).1 ++ (splitSpace text).2 = text := by
  unfold splitSpace
  split
  · split <;> simp
  · rfl

/-- A prefix whose characters all pass a test is removed by its length. -/
theorem takeWhile_take_append_drop (p : Char -> Bool) (n : Nat) (text : List Char) :
    (text.take n).takeWhile p ++ text.drop ((text.take n).takeWhile p).length = text := by
  have h : (text.take n).takeWhile p <+: text :=
    (List.takeWhile_prefix p).trans (List.take_prefix n text)
  obtain ⟨rest, hrest⟩ := h
  generalize (text.take n).takeWhile p = front at hrest
  subst hrest
  simp

theorem splitHexTail_append (text : List Char) :
    (splitHexTail text).1 ++ (splitHexTail text).2 = text := by
  simp only [splitHexTail, List.append_assoc]
  rw [splitSpace_append, takeWhile_take_append_drop]

/-- A unit and what follows it are the text, and a unit is never empty. -/
theorem splitUnit?_eq_some {text unit rest : List Char}
    (h : splitUnit? text = some (unit, rest)) : unit ++ rest = text ∧ unit ≠ [] := by
  unfold splitUnit? at h
  split at h
  · simp at h
  · split at h
    · simp only [Option.some.injEq, Prod.mk.injEq] at h
      obtain ⟨rfl, rfl⟩ := h
      simp
    · split at h
      · split at h
        · simp at h
        · split at h
          · simp only [Option.some.injEq, Prod.mk.injEq] at h
            obtain ⟨rfl, rfl⟩ := h
            simp [splitHexTail_append]
          · simp only [Option.some.injEq, Prod.mk.injEq] at h
            obtain ⟨rfl, rfl⟩ := h
            simp
      · simp at h

theorem splitUnit?_length_lt {text unit rest : List Char}
    (h : splitUnit? text = some (unit, rest)) : rest.length < text.length := by
  obtain ⟨rfl, hne⟩ := splitUnit?_eq_some h
  have := List.length_pos_iff.mpr hne
  simp
  omega

/-- The longest name at the front of a text, which may be empty, and what follows. -/
def split (text : List Char) : List Char × List Char :=
  match _h : splitUnit? text with
  | none => ([], text)
  | some (unit, rest) =>
      let (name, after) := split rest
      (unit ++ name, after)
termination_by text.length
decreasing_by exact splitUnit?_length_lt _h

/--
Whether a text begins like an identifier: with a name-start character or an escape, or
with a hyphen before one of these or before a second hyphen.
-/
def startsIdent : List Char -> Bool
  | '-' :: c :: rest => isNameStart c || c == '-' || startsEscape (c :: rest)
  | c :: rest => isNameStart c || startsEscape (c :: rest)
  | [] => false

theorem split_append (text : List Char) : (split text).1 ++ (split text).2 = text := by
  fun_induction split text with
  | case1 text h => simp
  | case2 text unit rest h name after hrest ih =>
      rw [hrest] at ih
      simp only [List.append_assoc]
      rw [ih]
      exact (splitUnit?_eq_some h).1

/-- An identifier start is a non-empty name. -/
theorem split_ne_nil_of_startsIdent {text : List Char} (h : startsIdent text = true) :
    (split text).1 ≠ [] := by
  have hunit : splitUnit? text ≠ none := by
    cases text with
    | nil => simp [startsIdent] at h
    | cons c rest =>
        by_cases hc : isNameChar c = true
        · simp [splitUnit?, hc]
        · have hs : startsEscape (c :: rest) = true := by
            unfold startsIdent at h
            split at h
            · simp_all [isNameChar]
            · simp_all [isNameChar]
            · simp_all
          unfold startsEscape at hs
          split at hs
          · rename_i d more heq
            obtain ⟨rfl, rfl⟩ := List.cons.inj heq
            simp only [splitUnit?, hc]
            simp only [bne_iff_ne, ne_eq] at hs
            simp [hs]
            split <;> simp
          · simp at hs
  unfold split
  split
  · contradiction
  · rename_i unit rest h'
    have := (splitUnit?_eq_some h').2
    simp [this]

end Name
end Stylesheet
