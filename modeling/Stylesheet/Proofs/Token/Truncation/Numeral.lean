import Stylesheet.Proofs.Token.Truncation.Name
import Stylesheet.Token.Numeral

/-!
# Numerals in a shorter text

A numeral at the front of a text stays the same when the text is cut off anywhere behind it.
-/

namespace Stylesheet

namespace Numeral

open Character

variable {text front keep cut : List Char}

theorem splitDigits_of_append (text cut : List Char)
    (h : splitDigits text = (front, keep ++ cut)) :
    splitDigits (front ++ keep) = (front, keep) := by
  rcases Prod.mk.inj h with ⟨hfront, hrest⟩
  rcases takeWhile_of_dropWhile_append hfront hrest with ⟨hfront', hrest'⟩
  unfold splitDigits
  rw [hfront', hrest']

theorem splitSign_of_append (text cut : List Char)
    (h : splitSign text = (front, keep ++ cut)) :
    splitSign (front ++ keep) = (front, keep) := by
  unfold splitSign at h
  split at h
  · rename_i c rest
    split at h
    · rename_i hc
      cases h
      simp [splitSign, hc]
    · rename_i hc
      obtain ⟨rfl, hrest⟩ := Prod.mk.inj h
      cases keep with
      | nil => rfl
      | cons d keep =>
          cases hrest
          simp [splitSign, hc]
  · obtain ⟨rfl, hrest⟩ := Prod.mk.inj h
    rcases List.append_eq_nil_iff.mp hrest.symm with ⟨rfl, _⟩
    rfl

theorem splitFraction_nil (h : splitFraction (keep ++ cut) = ([], keep ++ cut)) :
    splitFraction keep = ([], keep) := by
  cases hkeep : splitFraction keep with
  | mk fraction rest =>
      unfold splitFraction at hkeep
      split at hkeep
      · rename_i d more
        split at hkeep
        · rename_i hd
          rw [List.cons_append, List.cons_append, splitFraction, if_pos hd] at h
          cases h
        · exact hkeep.symm
      · exact hkeep.symm

theorem splitFraction_of_append (text cut : List Char)
    (h : splitFraction text = (front, keep ++ cut)) :
    splitFraction (front ++ keep) = (front, keep) := by
  have happend := splitFraction_append text
  rw [h] at happend
  cases hfront : front with
  | nil =>
      rw [hfront, List.nil_append] at happend
      rw [← happend, hfront] at h
      exact splitFraction_nil h
  | cons c digits =>
      unfold splitFraction at h
      split at h
      · rename_i d more
        split at h
        · rename_i hd
          cases hdigits : splitDigits (d :: more) with
          | mk digits' after =>
              rw [hdigits, hfront] at h
              cases h
              have hdigits' := splitDigits_of_append _ _ hdigits
              cases digits with
              | nil => simp [splitDigits, hd] at hdigits
              | cons d' digits =>
                  have hd' : d' = d := by
                    rcases Prod.mk.inj hdigits with ⟨hdigits, _⟩
                    rw [List.takeWhile_cons, if_pos hd] at hdigits
                    exact (List.cons.inj hdigits).1.symm
                  rw [List.cons_append] at hdigits'
                  rw [List.cons_append, List.cons_append, splitFraction, hd', if_pos hd, ← hd',
                    hdigits']
        · rw [hfront] at h
          cases h
      · rw [hfront] at h
        cases h

theorem startsDigit_append (h : startsDigit keep = true) (cut : List Char) :
    startsDigit (keep ++ cut) = true := by
  cases keep with
  | nil => cases h
  | cons c keep => exact h

theorem splitSign_append_of_startsDigit (h : startsDigit (splitSign keep).2 = true) (cut : List Char) :
    splitSign (keep ++ cut) = ((splitSign keep).1, (splitSign keep).2 ++ cut) := by
  cases keep with
  | nil => cases h
  | cons c keep =>
      rw [List.cons_append, splitSign, splitSign]
      split <;> rfl

theorem splitExponent_nil (h : splitExponent (keep ++ cut) = ([], keep ++ cut)) :
    splitExponent keep = ([], keep) := by
  cases keep with
  | nil => rfl
  | cons e rest =>
      simp only [splitExponent]
      split
      · rename_i hdigit
        rw [Bool.and_eq_true] at hdigit
        have hsign := splitSign_append_of_startsDigit hdigit.2 cut
        simp only [List.cons_append, splitExponent, hsign, hdigit.1,
          startsDigit_append hdigit.2 _, Bool.and_self, if_true] at h
        cases h
      · rfl

theorem splitExponent_of_append (h : splitExponent text = (front, keep ++ cut)) :
    splitExponent (front ++ keep) = (front, keep) := by
  have happend := splitExponent_append text
  rw [h] at happend
  cases hfront : front with
  | nil =>
      rw [hfront, List.nil_append] at happend
      rw [← happend, hfront] at h
      exact splitExponent_nil h
  | cons c tail =>
      cases text with
      | nil =>
          rw [hfront] at h
          cases h
      | cons e rest =>
          simp only [splitExponent] at h
          split at h
          · rename_i hdigit
            rw [Bool.and_eq_true] at hdigit
            cases hsign : splitSign rest with
            | mk sign more =>
                cases hdigits : splitDigits more with
                | mk digits after =>
                    simp only [hsign, hdigits, hfront, List.cons_append] at h hdigit
                    cases h
                    have hmore := splitDigits_append more
                    rw [hdigits] at hmore
                    have hsign' : splitSign (sign ++ (digits ++ keep)) = (sign, digits ++ keep) := by
                      refine splitSign_of_append rest cut ?_
                      rw [hsign, ← hmore, List.append_assoc]
                    have hstarts : startsDigit (digits ++ keep) = true := by
                      cases more with
                      | nil => cases hdigit.2
                      | cons d more =>
                          have hd : isDigit d = true := hdigit.2
                          rcases Prod.mk.inj hdigits with ⟨hdigits, _⟩
                          rw [List.takeWhile_cons, if_pos hd] at hdigits
                          rw [← hdigits]
                          exact hd
                    simp only [List.cons_append, List.append_assoc, splitExponent, hsign',
                      hdigit.1, hstarts, Bool.and_self, if_true, splitDigits_of_append _ _ hdigits]
          · rw [hfront] at h
            cases h

theorem split_of_append (text cut : List Char)
    (h : split text = (front, keep ++ cut)) :
    split (front ++ keep) = (front, keep) := by
  simp only [split] at h
  cases hsign : splitSign text with
  | mk sign unsigned =>
  cases hdigits : splitDigits unsigned with
  | mk digits fractional =>
  cases hfraction : splitFraction fractional with
  | mk fraction exponential =>
  cases hexponent : splitExponent exponential with
  | mk exponent rest =>
      simp only [hsign, hdigits, hfraction, hexponent] at h
      obtain ⟨rfl, rfl⟩ := Prod.mk.inj h
      have hexponential := splitExponent_append exponential
      have hfractional := splitFraction_append fractional
      have hunsigned := splitDigits_append unsigned
      rw [hexponent] at hexponential
      rw [hfraction, ← hexponential] at hfractional
      rw [hdigits, ← hfractional] at hunsigned
      have hexponent' := splitExponent_of_append hexponent
      have hfraction' : splitFraction (fraction ++ (exponent ++ keep)) =
          (fraction, exponent ++ keep) := by
        refine splitFraction_of_append fractional cut ?_
        rw [hfraction, ← hexponential, List.append_assoc]
      have hdigits' : splitDigits (digits ++ (fraction ++ (exponent ++ keep))) =
          (digits, fraction ++ (exponent ++ keep)) := by
        refine splitDigits_of_append unsigned cut ?_
        rw [hdigits, ← hfractional]
        simp only [List.append_assoc]
      have hsign' : splitSign (sign ++ (digits ++ (fraction ++ (exponent ++ keep)))) =
          (sign, digits ++ (fraction ++ (exponent ++ keep))) := by
        refine splitSign_of_append text cut ?_
        rw [hsign, ← hunsigned]
        simp only [List.append_assoc]
      simp only [split, List.append_assoc, hsign', hdigits', hfraction', hexponent']

theorem starts_append (h : starts keep = true) (cut : List Char) : starts (keep ++ cut) = true := by
  unfold starts at h ⊢
  cases keep with
  | nil => cases h
  | cons c keep =>
      have hunsigned : forall {text : List Char}, startsUnsigned text = true ->
          startsUnsigned (text ++ cut) = true := by
        intro text h
        unfold startsUnsigned at h
        split at h
        · exact startsDigit_append h _
        · rename_i hpoint
          cases text with
          | nil => cases h
          | cons d text =>
              rw [List.cons_append, startsUnsigned]
              · exact h
              · intro rest heq
                cases heq
                exact hpoint _ rfl
      rw [List.cons_append, splitSign]
      rw [splitSign] at h
      split
      · rename_i hc
        rw [if_pos hc] at h
        exact hunsigned h
      · rename_i hc
        rw [if_neg hc] at h
        exact hunsigned h

theorem not_isSign_of_isDigit {c : Char} (h : isDigit c = true) : isSign c = false := by
  by_cases hc : isSign c = true
  · simp only [isSign, Bool.or_eq_true, beq_iff_eq] at hc
    rcases hc with rfl | rfl <;> exact absurd h (by decide)
  · simpa using hc

theorem startsUnsigned_cons {d : Char} (hd : isDigit d = true) (rest : List Char) :
    startsUnsigned (d :: rest) = true := by
  rw [startsUnsigned]
  · exact hd
  · intro more heq
    cases heq
    exact absurd hd (by decide)

/-- Digits and a fraction are enough to see that a numeral begins with them. -/
theorem startsUnsigned_digits_fraction {unsigned : List Char}
    (h : startsUnsigned unsigned = true) (more : List Char) :
    starts ((splitDigits unsigned).1 ++ (splitFraction (splitDigits unsigned).2).1 ++ more) =
        true ∧
      startsUnsigned
        ((splitDigits unsigned).1 ++ (splitFraction (splitDigits unsigned).2).1 ++ more) = true := by
  have hdigit : forall {d : Char} {rest : List Char}, startsDigit (d :: rest) = true ->
      isDigit d = true := fun h => h
  have hpoint : isDigit '.' = false := by decide
  cases unsigned with
  | nil => cases h
  | cons c rest =>
      by_cases hc : isDigit c = true
      · simp only [splitDigits, List.takeWhile_cons, hc, if_true, List.cons_append]
        have hunsigned := startsUnsigned_cons hc
        refine ⟨?_, hunsigned _⟩
        rw [starts, splitSign, if_neg (ne_true_of_eq_false (not_isSign_of_isDigit hc))]
        exact hunsigned _
      · unfold startsUnsigned at h
        split at h
        · rename_i rest' heq
          obtain ⟨rfl, rfl⟩ := List.cons.inj heq
          cases rest with
          | nil => cases h
          | cons d rest =>
              have hd : isDigit d = true := h
              simp only [splitDigits, List.takeWhile_cons, List.dropWhile_cons, hpoint, hd,
                splitFraction, if_true, List.cons_append, List.nil_append, Bool.false_eq_true,
                if_false]
              exact ⟨hd, hd⟩
        · exact absurd h hc

/-- The numeral at the front of a text is enough to see that it begins with one. -/
theorem starts_split (h : starts text = true) : starts (split text).1 = true := by
  rw [starts] at h
  rcases startsUnsigned_digits_fraction h
    (splitExponent (splitFraction (splitDigits (splitSign text).2).2).2).1 with ⟨hstarts, hunsigned⟩
  simp only [split]
  rw [List.append_assoc, List.append_assoc] at *
  cases text with
  | nil => exact hstarts
  | cons c rest =>
      rw [splitSign] at hstarts hunsigned ⊢
      split
      · rename_i hc
        rw [if_pos hc] at hunsigned
        rw [List.cons_append, starts, splitSign, if_pos hc]
        exact hunsigned
      · rename_i hc
        rw [if_neg hc] at hstarts
        exact hstarts

end Numeral

end Stylesheet
