import Stylesheet.Proofs.Token.Extension.Name
import Stylesheet.Token.Numeral

/-!
# Numerals in front of another text

A numeral does not see an edge: in front of a text that begins with one it is what it is at the
end of all text.
-/

namespace Stylesheet

open Character

theorem span_append_edge {p : Char -> Bool} {more : List Char}
    (hmore : forall b, b ∈ more.head? -> p b = false) (text : List Char) :
    (text ++ more).takeWhile p = text.takeWhile p ∧
      (text ++ more).dropWhile p = text.dropWhile p ++ more := by
  induction text with
  | nil =>
      cases more with
      | nil => exact ⟨rfl, rfl⟩
      | cons b more => simp [hmore b rfl]
  | cons c text ih =>
      rw [List.cons_append, List.takeWhile_cons, List.dropWhile_cons, List.takeWhile_cons,
        List.dropWhile_cons, ih.1, ih.2]
      split <;> exact ⟨rfl, rfl⟩

namespace Numeral

variable {more : List Char}

theorem splitDigits_append_edge (hmore : StartsEdge more) (text : List Char) :
    splitDigits (text ++ more) = ((splitDigits text).1, (splitDigits text).2 ++ more) := by
  rcases span_append_edge (fun b hb => (hmore b hb).digit) text with ⟨htake, hdrop⟩
  unfold splitDigits
  rw [htake, hdrop]

theorem splitSign_append_edge (hmore : StartsEdge more) (text : List Char) :
    splitSign (text ++ more) = ((splitSign text).1, (splitSign text).2 ++ more) := by
  cases text with
  | nil =>
      cases more with
      | nil => rfl
      | cons b more => simp [splitSign, (hmore b rfl).sign]
  | cons c rest =>
      rw [List.cons_append, splitSign, splitSign]
      split <;> rfl

theorem startsDigit_append_edge (hmore : StartsEdge more) (text : List Char) :
    startsDigit (text ++ more) = startsDigit text := by
  cases text with
  | nil =>
      cases more with
      | nil => rfl
      | cons b more => exact (hmore b rfl).digit
  | cons c rest => rfl

theorem splitFraction_cons {c : Char} (hc : c ≠ '.') (rest : List Char) :
    splitFraction (c :: rest) = ([], c :: rest) := by
  rw [splitFraction]
  intro d more heq
  cases heq
  exact hc rfl

theorem splitFraction_append_edge (hmore : StartsEdge more) (text : List Char) :
    splitFraction (text ++ more) = ((splitFraction text).1, (splitFraction text).2 ++ more) := by
  match text with
  | [] =>
      cases more with
      | nil => rfl
      | cons b more => exact splitFraction_cons (hmore b rfl).ne_point more
  | c :: rest =>
      by_cases hc : c = '.'
      · subst hc
        cases rest with
        | nil =>
            cases more with
            | nil => rfl
            | cons b more =>
                rw [List.cons_append, List.nil_append, splitFraction, (hmore b rfl).digit]
                rfl
        | cons d rest =>
            have hdigits := splitDigits_append_edge hmore (d :: rest)
            simp only [List.cons_append] at hdigits
            simp only [List.cons_append, splitFraction, hdigits]
            split <;> rfl
      · rw [List.cons_append, splitFraction_cons hc, splitFraction_cons hc]
        rfl

theorem splitExponent_append_edge (hmore : StartsEdge more) (text : List Char) :
    splitExponent (text ++ more) = ((splitExponent text).1, (splitExponent text).2 ++ more) := by
  cases text with
  | nil =>
      cases more with
      | nil => rfl
      | cons b more =>
          have hletter : (b == 'e' || b == 'E') = false := by
            rw [Bool.or_eq_false_iff, beq_eq_false_iff_ne, beq_eq_false_iff_ne]
            constructor
            all_goals
              rintro rfl
              exact absurd (hmore _ rfl).not_isHexDigit (by decide)
          rw [List.nil_append, splitExponent]
          simp only [hletter, Bool.false_and, Bool.false_eq_true, if_false]
          rfl
  | cons e rest =>
      simp only [List.cons_append, splitExponent, splitSign_append_edge hmore rest,
        startsDigit_append_edge hmore, splitDigits_append_edge hmore]
      split <;> rfl

theorem split_append_edge (hmore : StartsEdge more) (text : List Char) :
    split (text ++ more) = ((split text).1, (split text).2 ++ more) := by
  simp only [split, splitSign_append_edge hmore, splitDigits_append_edge hmore,
    splitFraction_append_edge hmore, splitExponent_append_edge hmore]

theorem startsUnsigned_append_edge (hmore : StartsEdge more) (text : List Char) :
    startsUnsigned (text ++ more) = startsUnsigned text := by
  have hcons : forall {c : Char} {rest : List Char}, c ≠ '.' ->
      startsUnsigned (c :: rest) = isDigit c := by
    intro c rest hc
    rw [startsUnsigned]
    · rfl
    · intro more heq
      cases heq
      exact hc rfl
  cases text with
  | nil =>
      cases more with
      | nil => rfl
      | cons b more => exact (hcons (hmore b rfl).ne_point).trans (hmore b rfl).digit
  | cons c rest =>
      by_cases hc : c = '.'
      · subst hc
        exact startsDigit_append_edge hmore rest
      · exact (hcons hc).trans (hcons hc).symm

theorem starts_append_edge (hmore : StartsEdge more) (text : List Char) :
    starts (text ++ more) = starts text := by
  unfold starts
  rw [splitSign_append_edge hmore, startsUnsigned_append_edge hmore]

end Numeral
end Stylesheet
