import Mathlib.Data.List.TakeWhile
import Stylesheet.Token.Name

/-!
# Names in a shorter text

A name at the front of a text stays the same when the text is cut off anywhere behind it, and
the name alone is enough to see that the text begins like an identifier.
-/

namespace Stylesheet

/-! ## Fronts of lists -/

theorem takeWhile_of_dropWhile_append {p : Char -> Bool} {text front keep cut : List Char}
    (hfront : text.takeWhile p = front) (hrest : text.dropWhile p = keep ++ cut) :
    (front ++ keep).takeWhile p = front ∧ (front ++ keep).dropWhile p = keep := by
  have hall : forall c, c ∈ front -> p c = true := by
    intro c hc
    rw [← hfront] at hc
    exact List.mem_takeWhile_imp hc
  have hkeep : keep.takeWhile p = [] ∧ keep.dropWhile p = keep := by
    cases keep with
    | nil => exact ⟨rfl, rfl⟩
    | cons c keep =>
        have hhead := List.head?_dropWhile_not p text
        rw [hrest] at hhead
        have hc : p c = false := by simpa using hhead
        simp [hc]
  constructor
  · rw [List.takeWhile_append_of_pos hall, hkeep.1, List.append_nil]
  · rw [List.dropWhile_append_of_pos hall, hkeep.2]

theorem of_takeWhile_take {p : Char -> Bool} {n : Nat} {text front : List Char}
    (hfront : (text.take n).takeWhile p = front) :
    (forall c, c ∈ front -> p c = true) ∧ front.length ≤ n := by
  subst hfront
  exact ⟨fun _ => List.mem_takeWhile_imp,
    Nat.le_trans (List.takeWhile_prefix p).length_le (List.length_take_le n text)⟩

theorem takeWhile_take_of_drop_append {p : Char -> Bool} {n : Nat}
    {text front keep cut : List Char} (hfront : (text.take n).takeWhile p = front)
    (hrest : text.drop front.length = keep ++ cut) :
    ((front ++ keep).take n).takeWhile p = front := by
  have happend := Name.takeWhile_take_append_drop p n text
  rw [hfront, hrest] at happend
  rcases of_takeWhile_take hfront with ⟨hall, hlength⟩
  rw [← happend, List.take_append, List.take_of_length_le hlength,
    List.takeWhile_append_of_pos hall] at hfront
  rw [List.take_append, List.take_of_length_le hlength, List.takeWhile_append_of_pos hall]
  rw [List.append_right_eq_self] at hfront ⊢
  cases keep with
  | nil => simp
  | cons c keep =>
      cases hn : n - front.length with
      | zero => simp
      | succ m =>
          rw [hn, List.cons_append, List.take_succ_cons, List.takeWhile_cons] at hfront
          rw [List.take_succ_cons, List.takeWhile_cons]
          split at hfront
          · cases hfront
          · rw [if_neg ‹_›]

/-! ## Names -/

namespace Name

open Character

variable {text front keep cut : List Char}

theorem splitSpace_of_append (h : splitSpace text = (front, keep ++ cut)) :
    splitSpace (front ++ keep) = (front, keep) := by
  unfold splitSpace at h
  split at h
  · rename_i c rest
    split at h
    · rename_i hc
      cases h
      simp [splitSpace, hc]
    · rename_i hc
      obtain ⟨rfl, hrest⟩ := Prod.mk.inj h
      cases keep with
      | nil => rfl
      | cons d keep =>
          cases hrest
          simp [splitSpace, hc]
  · obtain ⟨rfl, hrest⟩ := Prod.mk.inj h
    rcases List.append_eq_nil_iff.mp hrest.symm with ⟨rfl, _⟩
    rfl

theorem splitHexTail_of_append (h : splitHexTail text = (front, keep ++ cut)) :
    splitHexTail (front ++ keep) = (front, keep) := by
  simp only [splitHexTail] at h
  generalize hdigits : (text.take 5).takeWhile isHexDigit = digits at h
  have hspace := splitSpace_append (text.drop digits.length)
  cases hsplit : splitSpace (text.drop digits.length) with
  | mk space rest =>
      rw [hsplit] at h hspace
      obtain ⟨rfl, rfl⟩ := Prod.mk.inj h
      have hdrop : text.drop digits.length = (space ++ keep) ++ cut := by
        rw [← hspace, List.append_assoc]
      have hdigits' := takeWhile_take_of_drop_append hdigits hdrop
      simp only [splitHexTail, List.append_assoc, hdigits', List.drop_left,
        splitSpace_of_append hsplit]

theorem splitUnit?_of_append (text cut : List Char)
    (h : splitUnit? text = some (front, keep ++ cut)) :
    splitUnit? (front ++ keep) = some (front, keep) := by
  unfold splitUnit? at h
  split at h
  · cases h
  · rename_i c rest
    split at h
    · rename_i hc
      obtain ⟨rfl, rfl⟩ := Prod.mk.inj (Option.some.inj h)
      simp [splitUnit?, hc]
    · rename_i hc
      split at h
      · rename_i d more
        split at h
        · cases h
        · rename_i hd
          split at h
          · rename_i hhex
            cases hsplit : splitHexTail more with
            | mk tail after =>
                rw [hsplit] at h
                obtain ⟨rfl, rfl⟩ := Prod.mk.inj (Option.some.inj h)
                simp [splitUnit?, hc, hd, hhex, splitHexTail_of_append hsplit]
          · rename_i hhex
            obtain ⟨rfl, rfl⟩ := Prod.mk.inj (Option.some.inj h)
            simp [splitUnit?, hc, hd, hhex]
      · cases h

theorem splitUnit?_append_isSome (h : (splitUnit? keep).isSome = true) (cut : List Char) :
    (splitUnit? (keep ++ cut)).isSome = true := by
  unfold splitUnit? at h
  split at h
  · cases h
  · rename_i c rest
    by_cases hc : isNameChar c = true
    · simp [splitUnit?, hc]
    · rw [if_neg hc] at h
      split at h
      · rename_i d more
        by_cases hd : (d == '\n') = true
        · simp [hd] at h
        · simp only [List.cons_append, splitUnit?, hc, hd, Bool.false_eq_true, if_false]
          split <;> rfl
      · cases h

theorem split_of_append (text cut : List Char)
    (h : split text = (front, keep ++ cut)) :
    split (front ++ keep) = (front, keep) := by
  fun_induction split text generalizing front with
  | case1 text hnone =>
      obtain ⟨rfl, rfl⟩ := Prod.mk.inj h
      have hkeep : splitUnit? keep = none := by
        rw [← Option.not_isSome_iff_eq_none]
        intro hsome
        have := splitUnit?_append_isSome hsome cut
        rw [hnone] at this
        cases this
      rw [List.nil_append, split]
      split
      · rfl
      · rename_i hsome
        rw [hkeep] at hsome
        cases hsome
  | case2 text unit rest hunit name after hrest ih =>
      obtain ⟨rfl, rfl⟩ := Prod.mk.inj h
      have happend := split_append rest
      rw [hrest] at happend
      have hunit' : splitUnit? (unit ++ (name ++ keep)) = some (unit, name ++ keep) := by
        refine splitUnit?_of_append text cut ?_
        rw [hunit, ← happend, List.append_assoc]
      rw [List.append_assoc, split]
      split
      · rename_i hnone
        rw [hunit'] at hnone
        cases hnone
      · rename_i unit' rest' hsome
        rw [hunit'] at hsome
        cases hsome
        rw [ih hrest]

/-- A text begins with a unit of a name exactly when its name is not empty. -/
theorem splitUnit?_isSome_iff (text : List Char) :
    (splitUnit? text).isSome = true <-> (split text).1 ≠ [] := by
  rw [split]
  split
  · rename_i hnone
    simp [hnone]
  · rename_i unit rest hunit
    simp [hunit, (splitUnit?_eq_some hunit).2]

theorem startsEscape_append (h : startsEscape keep = true) (cut : List Char) :
    startsEscape (keep ++ cut) = true := by
  unfold startsEscape at h
  split at h
  · exact h
  · cases h

theorem startsIdent_append (h : startsIdent keep = true) (cut : List Char) :
    startsIdent (keep ++ cut) = true := by
  have hescape : forall {c : Char} {rest : List Char}, startsEscape (c :: rest) = true ->
      startsEscape (c :: (rest ++ cut)) = true := fun h => startsEscape_append h _
  unfold startsIdent at h
  split at h
  · rename_i c rest
    simp only [List.cons_append, startsIdent, Bool.or_eq_true] at h ⊢
    exact h.imp id hescape
  · rename_i c rest hhyphen
    rw [List.cons_append]
    unfold startsIdent
    split
    · rename_i heq
      obtain ⟨rfl, _⟩ := List.cons.inj heq
      rw [show isNameStart '-' = false by decide, Bool.false_or] at h
      unfold startsEscape at h
      split at h
      · rename_i heq
        cases heq
      · cases h
    · rename_i heq
      cases heq
      simp only [Bool.or_eq_true] at h ⊢
      exact h.imp id hescape
    · rename_i heq
      cases heq
  · cases h

theorem split_cons {c : Char} (hc : isNameChar c = true) (rest : List Char) :
    (split (c :: rest)).1 = c :: (split rest).1 := by
  have hunit : splitUnit? (c :: rest) = some ([c], rest) := by simp [splitUnit?, hc]
  rw [split]
  split
  · rename_i hnone
    rw [hunit] at hnone
    cases hnone
  · rename_i hsome
    rw [hunit] at hsome
    cases hsome
    rfl

/-- Name characters are a name in front of what a name does not go on with. -/
theorem split_append_of_isNameChar {name : List Char}
    (hname : forall c, c ∈ name -> isNameChar c = true) (htext : splitUnit? text = none) :
    split (name ++ text) = (name, text) := by
  induction name with
  | nil =>
      rw [List.nil_append, split]
      split
      · rfl
      · rename_i hsome
        rw [htext] at hsome
        cases hsome
  | cons c rest ih =>
      have hrest := ih fun d hd => hname d (List.mem_cons_of_mem _ hd)
      have hfront := split_cons (hname c List.mem_cons_self) (rest ++ text)
      rw [hrest] at hfront
      have hwhole := split_append (c :: (rest ++ text))
      rw [hfront] at hwhole
      exact Prod.ext hfront (List.append_cancel_left hwhole)

theorem startsEscape_split (h : startsEscape text = true) : startsEscape (split text).1 = true := by
  unfold startsEscape at h
  split at h
  · rename_i d more
    rw [bne_iff_ne, ne_eq] at h
    have hunit : exists tail after,
        splitUnit? ('\\' :: d :: more) = some ('\\' :: d :: tail, after) := by
      simp only [splitUnit?, show isNameChar '\\' = false by decide, Bool.false_eq_true,
        beq_iff_eq, h, if_false]
      split
      · exact ⟨_, _, rfl⟩
      · exact ⟨[], more, rfl⟩
    rcases hunit with ⟨tail, after, hunit⟩
    rw [split]
    split
    · rename_i hnone
      rw [hunit] at hnone
      cases hnone
    · rename_i hsome
      rw [hunit] at hsome
      cases hsome
      simpa [startsEscape] using h
  · cases h

/-- The name at the front of a text is enough to see that it begins like an identifier. -/
theorem startsIdent_split (h : startsIdent text = true) : startsIdent (split text).1 = true := by
  have hstart : forall {c : Char}, isNameStart c = true -> isNameChar c = true := by
    intro c hc
    simp [isNameChar, hc]
  unfold startsIdent at h
  split at h
  · rename_i c rest
    rw [split_cons (by decide)]
    simp only [Bool.or_eq_true, beq_iff_eq] at h
    rcases h with (hc | rfl) | hescape
    · rw [split_cons (hstart hc)]
      simp [startsIdent, hc]
    · rw [split_cons (by decide)]
      simp [startsIdent]
    · have hname := startsEscape_split hescape
      cases hsplit : (split (c :: rest)).1 with
      | nil =>
          rw [hsplit] at hname
          cases hname
      | cons d more =>
          rw [hsplit] at hname
          simp [startsIdent, hname]
  · rename_i c rest hhyphen
    rw [Bool.or_eq_true] at h
    rcases h with hc | hescape
    · rw [split_cons (hstart hc)]
      unfold startsIdent
      split
      · rename_i heq
        obtain ⟨rfl, _⟩ := List.cons.inj heq
        exact absurd hc (by decide)
      · rename_i heq
        cases heq
        simp [hc]
      · rename_i heq
        cases heq
    · have hname := startsEscape_split hescape
      unfold startsIdent
      split
      · rename_i heq
        rw [heq] at hname
        cases hname
      · rename_i heq
        rw [heq] at hname
        simp [hname]
      · rename_i heq
        rw [heq] at hname
        cases hname
  · cases h

end Name

end Stylesheet
