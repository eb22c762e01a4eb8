import Stylesheet.Proofs.Token.Truncation.Name
import Stylesheet.Token.Lexeme

/-!
# Names in front of another text

What is written behind a name may be replaced by a text that begins with an edge, and the name
stays the same.  A blank is the one edge that matters to a name: an escape that is still open
takes it in.
-/

namespace Stylesheet

open Character

/-! ## Edges -/

/-- A character that no test on the text behind a token asks for, and none looks beyond. -/
structure IsEdge (b : Char) : Prop where
  digit : isDigit b = false
  range : Lexeme.isRangeDigit b = false
  sign : isSign b = false
  mark : b ∉ ['\\', '.', '!', '>', '%', '\n', '\t', '\r', '\x0c']

/-- A text that begins with an edge, if it is not empty. -/
def StartsEdge (text : List Char) : Prop :=
  forall b, b ∈ text.head? -> IsEdge b

/-- A text that may stand where another stood: no test tells it from the other. -/
structure Resembles (text other : List Char) : Prop where
  left : StartsEdge text
  right : StartsEdge other
  name : text.head?.any isNameStart = other.head?.any isNameStart
  paren : other.head? = some '(' -> text.head? = some '('

namespace IsEdge

variable {b : Char}

theorem ne_backslash (h : IsEdge b) : b ≠ '\\' := by
  rintro rfl
  exact h.mark (by decide)

theorem ne_point (h : IsEdge b) : b ≠ '.' := by
  rintro rfl
  exact h.mark (by decide)

theorem ne_lineFeed (h : IsEdge b) : b ≠ '\n' := by
  rintro rfl
  exact h.mark (by decide)

theorem ne_hyphen (h : IsEdge b) : b ≠ '-' := by
  rintro rfl
  exact absurd h.sign (by decide)

theorem not_isHexDigit (h : IsEdge b) : isHexDigit b = false := by
  have hrange := h.range
  unfold Lexeme.isRangeDigit at hrange
  rw [Bool.or_eq_false_iff] at hrange
  exact hrange.1

theorem eq_of_isSpace (h : IsEdge b) (hspace : isSpace b = true) : b = ' ' := by
  have hmark := h.mark
  simp only [List.mem_cons, not_or] at hmark
  simp only [isSpace, Bool.or_eq_true, beq_iff_eq] at hspace
  rcases hspace with (((rfl | rfl) | rfl) | rfl) | rfl
  · rfl
  · exact absurd rfl hmark.2.2.2.2.2.2.1
  · exact absurd rfl hmark.2.2.2.2.2.1
  · exact absurd rfl hmark.2.2.2.2.2.2.2.1
  · exact absurd rfl hmark.2.2.2.2.2.2.2.2.1

theorem isNameChar_eq (h : IsEdge b) : isNameChar b = isNameStart b := by
  unfold isNameChar
  rw [h.digit, beq_false_of_ne h.ne_hyphen, Bool.or_false, Bool.or_false]

end IsEdge

/-! ## Fronts of lists -/

/-- A front of limited length that ends within a text stays the same when the text is extended. -/
theorem takeWhile_take_append_right {p : Char -> Bool} {n : Nat} {text front : List Char}
    (hfront : (text.take n).takeWhile p = front) (hne : text.drop front.length ≠ [])
    (more : List Char) :
    ((text ++ more).take n).takeWhile p = front ∧
      (text ++ more).drop front.length = text.drop front.length ++ more := by
  have happend := Name.takeWhile_take_append_drop p n text
  rw [hfront] at happend
  generalize text.drop front.length = keep at happend hne
  rcases of_takeWhile_take hfront with ⟨hall, hlength⟩
  rw [← happend] at hfront ⊢
  rw [List.append_assoc, List.drop_left]
  refine ⟨?_, rfl⟩
  rw [List.take_append, List.take_of_length_le hlength, List.takeWhile_append_of_pos hall,
    List.append_right_eq_self] at hfront ⊢
  cases keep with
  | nil => exact absurd rfl hne
  | cons c keep =>
      cases hn : n - front.length with
      | zero => rfl
      | succ m =>
          rw [hn, List.take_succ_cons, List.takeWhile_cons] at hfront
          rw [List.cons_append, List.take_succ_cons, List.takeWhile_cons]
          split at hfront
          · cases hfront
          · rw [if_neg ‹_›]

/-- A front of limited length stays the same in front of a character that fails its test. -/
theorem takeWhile_take_append_edge {p : Char -> Bool} {text more : List Char}
    (hmore : forall b, b ∈ more.head? -> p b = false) (n : Nat) :
    ((text ++ more).take n).takeWhile p = (text.take n).takeWhile p := by
  induction text generalizing n with
  | nil =>
      cases more with
      | nil => rfl
      | cons b more =>
          cases n with
          | zero => rfl
          | succ n => simp [hmore b rfl]
  | cons c text ih =>
      cases n with
      | zero => rfl
      | succ n =>
          rw [List.cons_append, List.take_succ_cons, List.take_succ_cons, List.takeWhile_cons,
            List.takeWhile_cons, ih]

theorem drop_takeWhile_take_append (p : Char -> Bool) (n : Nat) (text more : List Char) :
    (text ++ more).drop ((text.take n).takeWhile p).length =
      text.drop ((text.take n).takeWhile p).length ++ more := by
  apply List.drop_append_of_le_length
  exact Nat.le_trans (List.takeWhile_prefix p).length_le (List.length_take_le' n text)

namespace Name

variable {text front keep : List Char}

/-! ## Beyond the next character -/

theorem splitSpace_append_right (hne : text ≠ []) (more : List Char) :
    splitSpace (text ++ more) = ((splitSpace text).1, (splitSpace text).2 ++ more) := by
  cases text with
  | nil => exact absurd rfl hne
  | cons c rest =>
      rw [List.cons_append, splitSpace, splitSpace]
      split <;> rfl

theorem splitHexTail_append_right (h : splitHexTail text = (front, keep)) (hne : keep ≠ [])
    (more : List Char) : splitHexTail (text ++ more) = (front, keep ++ more) := by
  simp only [splitHexTail] at h ⊢
  generalize hdigits : (text.take 5).takeWhile isHexDigit = digits at h
  generalize hrest : text.drop digits.length = rest at h
  have hspace := splitSpace_append rest
  cases hsplit : splitSpace rest with
  | mk space after =>
      rw [hsplit] at h hspace
      obtain ⟨rfl, rfl⟩ := Prod.mk.inj h
      have hrest' : rest ≠ [] := by
        rw [← hspace]
        exact List.append_ne_nil_of_right_ne_nil _ hne
      rcases takeWhile_take_append_right hdigits (hrest ▸ hrest') more with ⟨htake, hdrop⟩
      rw [htake, hdrop, hrest, splitSpace_append_right hrest', hsplit]

theorem splitUnit?_append_right (h : splitUnit? text = some (front, keep)) (hne : keep ≠ [])
    (more : List Char) : splitUnit? (text ++ more) = some (front, keep ++ more) := by
  unfold splitUnit? at h
  split at h
  · cases h
  · rename_i c rest
    split at h
    · rename_i hc
      cases h
      simp [splitUnit?, hc]
    · rename_i hc
      split at h
      · rename_i d behind
        split at h
        · cases h
        · rename_i hd
          split at h
          · rename_i hhex
            cases hsplit : splitHexTail behind with
            | mk tail after =>
                rw [hsplit] at h
                cases h
                simp [splitUnit?, hc, hd, hhex, splitHexTail_append_right hsplit hne more]
          · rename_i hhex
            cases h
            simp [splitUnit?, hc, hd, hhex]
      · cases h

/--
A text that does not begin with a unit does not when it is extended, unless all of it is a
backslash.
-/
theorem splitUnit?_append_eq_none (h : splitUnit? text = none) (hne : text ≠ [])
    (hbackslash : text ≠ ['\\']) (more : List Char) : splitUnit? (text ++ more) = none := by
  unfold splitUnit? at h
  split at h
  · exact absurd rfl hne
  · rename_i c rest
    split at h
    · cases h
    · rename_i hc
      split at h
      · rename_i d behind
        split at h
        · rename_i hd
          simp [splitUnit?, hc, hd]
        · split at h <;> cases h
      · rename_i hnot
        cases rest with
        | nil =>
            have hne : c ≠ '\\' := by
              rintro rfl
              exact hbackslash rfl
            simp [splitUnit?, hc, hne]
        | cons d rest =>
            have hne : c ≠ '\\' := by
              rintro rfl
              exact hnot d rest rfl rfl
            simp [splitUnit?, hc, hne]

/-- A name that ends before the end of a text stays the same when the text is extended. -/
theorem split_append_right (h : split text = (front, keep)) (hne : keep ≠ [])
    (hbackslash : keep ≠ ['\\']) (more : List Char) :
    split (text ++ more) = (front, keep ++ more) := by
  fun_induction split text generalizing front with
  | case1 text hnone =>
      obtain ⟨rfl, rfl⟩ := Prod.mk.inj h
      have hnone' := splitUnit?_append_eq_none hnone hne hbackslash more
      rw [split]
      split
      · rfl
      · rename_i hsome
        rw [hnone'] at hsome
        cases hsome
  | case2 text unit rest hunit name after hrest ih =>
      obtain ⟨rfl, rfl⟩ := Prod.mk.inj h
      have happend := split_append rest
      rw [hrest] at happend
      have hrest' : rest ≠ [] := by
        rw [← happend]
        exact List.append_ne_nil_of_right_ne_nil _ hne
      have hunit' := splitUnit?_append_right hunit hrest' more
      rw [split]
      split
      · rename_i hnone
        rw [hunit'] at hnone
        cases hnone
      · rename_i unit' rest' hsome
        rw [hunit'] at hsome
        cases hsome
        rw [ih hrest]

/-! ## In front of an edge -/

/-- A text whose first character ends every name, open escapes included. -/
def EndsNames (text : List Char) : Prop :=
  forall b, b ∈ text.head? -> isNameChar b = false ∧ b ≠ '\\' ∧ isSpace b = false

theorem not_isHexDigit_of_not_isNameChar {b : Char} (h : isNameChar b = false) :
    isHexDigit b = false := by
  rw [← Bool.not_eq_true] at h ⊢
  intro hhex
  simp only [isHexDigit, isNameChar, isNameStart, isLetter, Bool.or_eq_true, Bool.and_eq_true,
    decide_eq_true_eq] at h hhex
  have hlower : 'f' ≤ 'z' := by decide
  have hupper : 'F' ≤ 'Z' := by decide
  apply h
  rcases hhex with (hdigit | ⟨hleft, hright⟩) | ⟨hleft, hright⟩
  · exact Or.inl (Or.inr hdigit)
  · exact Or.inl (Or.inl (Or.inl (Or.inl (Or.inl ⟨hleft, Char.le_trans hright hlower⟩))))
  · exact Or.inl (Or.inl (Or.inl (Or.inl (Or.inr ⟨hleft, Char.le_trans hright hupper⟩))))

section Edge

variable {more : List Char}

theorem splitSpace_append_edge (hmore : EndsNames more) (text : List Char) :
    splitSpace (text ++ more) = ((splitSpace text).1, (splitSpace text).2 ++ more) := by
  cases text with
  | nil =>
      cases more with
      | nil => rfl
      | cons b more => simp [splitSpace, (hmore b rfl).2.2]
  | cons c rest => exact splitSpace_append_right (List.cons_ne_nil c rest) more

theorem splitHexTail_append_edge (hmore : EndsNames more) (text : List Char) :
    splitHexTail (text ++ more) = ((splitHexTail text).1, (splitHexTail text).2 ++ more) := by
  have hdigits : ((text ++ more).take 5).takeWhile isHexDigit =
      (text.take 5).takeWhile isHexDigit :=
    takeWhile_take_append_edge (fun b hb => not_isHexDigit_of_not_isNameChar (hmore b hb).1) 5
  simp only [splitHexTail, hdigits, drop_takeWhile_take_append, splitSpace_append_edge hmore]

theorem splitUnit?_append_edge (hmore : EndsNames more) (h : splitUnit? text = some (front, keep)) :
    splitUnit? (text ++ more) = some (front, keep ++ more) := by
  unfold splitUnit? at h
  split at h
  · cases h
  · rename_i c rest
    split at h
    · rename_i hc
      cases h
      simp [splitUnit?, hc]
    · rename_i hc
      split at h
      · rename_i d behind
        split at h
        · cases h
        · rename_i hd
          split at h
          · rename_i hhex
            have htail := splitHexTail_append_edge hmore behind
            cases hsplit : splitHexTail behind with
            | mk tail after =>
                rw [hsplit] at h htail
                cases h
                simp [splitUnit?, hc, hd, hhex, htail]
          · rename_i hhex
            cases h
            simp [splitUnit?, hc, hd, hhex]
      · cases h

theorem splitUnit?_edge (hmore : EndsNames more) : splitUnit? more = none := by
  cases more with
  | nil => rfl
  | cons b more =>
      rcases hmore b rfl with ⟨hname, hbackslash, _⟩
      simp [splitUnit?, hname, hbackslash]

theorem split_append_edge (hmore : EndsNames more) (h : split text = (front, keep))
    (hbackslash : keep ≠ ['\\']) : split (text ++ more) = (front, keep ++ more) := by
  fun_induction split text generalizing front with
  | case1 text hnone =>
      obtain ⟨rfl, rfl⟩ := Prod.mk.inj h
      have hnone' : splitUnit? (text ++ more) = none := by
        by_cases hne : text = []
        · rw [hne]
          exact splitUnit?_edge hmore
        · exact splitUnit?_append_eq_none hnone hne hbackslash more
      rw [split]
      split
      · rfl
      · rename_i hsome
        rw [hnone'] at hsome
        cases hsome
  | case2 text unit rest hunit name after hrest ih =>
      obtain ⟨rfl, rfl⟩ := Prod.mk.inj h
      have hunit' := splitUnit?_append_edge hmore hunit
      rw [split]
      split
      · rename_i hnone
        rw [hunit'] at hnone
        cases hnone
      · rename_i unit' rest' hsome
        rw [hunit'] at hsome
        cases hsome
        rw [ih hrest]

end Edge

/-! ## Replacing what stands behind a name -/

/-- A blank behind a name would belong to its last escape. -/
def IsOpen (name : List Char) : Prop :=
  (split (name ++ [' '])).1 ≠ name

/-- No blank stands where an escape of a name is still open. -/
def Ends (name text : List Char) : Prop :=
  forall b, b ∈ text.head? -> isSpace b = true -> ¬ IsOpen name

theorem splitUnit?_split (text : List Char) : splitUnit? (split text).2 = none := by
  fun_induction split text with
  | case1 text hnone => exact hnone
  | case2 text unit rest hunit name after hrest ih =>
      rw [hrest] at ih
      exact ih

theorem splitUnit?_cons_isSome {c : Char} (hc : isNameStart c = true) (rest : List Char) :
    (splitUnit? (c :: rest)).isSome = true := by
  have hchar : isNameChar c = true := by simp [isNameChar, hc]
  simp [splitUnit?, hchar]

/-- Behind a name no text begins that goes on with the name. -/
theorem not_isNameStart_of_resembles {text other : List Char} (h : splitUnit? text = none)
    (hresembles : Resembles text other) : forall b, b ∈ other.head? -> isNameStart b = false := by
  intro b hb
  rw [← Bool.not_eq_true]
  intro hname
  have hany := hresembles.name
  rw [hb, Option.any_some, hname] at hany
  cases text with
  | nil => cases hany
  | cons c text =>
      have hsome := splitUnit?_cons_isSome hany text
      rw [h] at hsome
      cases hsome

/-- A name whose last escape is closed ends in front of a blank. -/
theorem split_blank {name : List Char} (h : ¬ IsOpen name) (more : List Char) :
    split (name ++ ' ' :: more) = (name, ' ' :: more) := by
  have hfirst : (split (name ++ [' '])).1 = name := of_not_not h
  have happend := split_append (name ++ [' '])
  rw [hfirst] at happend
  have hsplit : split (name ++ [' ']) = (name, [' ']) :=
    Prod.ext hfirst (List.append_cancel_left happend)
  have hlong := split_append_right hsplit (List.cons_ne_nil _ _) (by decide) more
  rw [List.append_assoc] at hlong
  exact hlong

theorem split_of_resembles {text other : List Char}
    (h : split (front ++ keep ++ text) = (front, keep ++ text))
    (hresembles : Resembles text other) (hbackslash : keep = ['\\'] -> text ≠ [])
    (hends : keep = [] -> Ends front other) :
    split (front ++ keep ++ other) = (front, keep ++ other) := by
  have hshort := split_of_append _ _ h
  have hnone := splitUnit?_split (front ++ keep ++ text)
  rw [h] at hnone
  by_cases hkeep : keep = []
  · subst hkeep
    rw [List.nil_append] at hnone
    rw [List.append_nil] at hshort ⊢
    -- A blank is no name character, yet an escape may take one: it is the only edge to look at.
    by_cases hspace : exists b, b ∈ other.head? ∧ isSpace b = true
    · rcases hspace with ⟨b, hb, hspace⟩
      rcases List.head?_eq_some_iff.mp hb with ⟨more, rfl⟩
      obtain rfl := (hresembles.right b rfl).eq_of_isSpace hspace
      exact split_blank (hends rfl ' ' rfl hspace) more
    · refine split_append_edge ?_ hshort (by decide)
      intro b hb
      have hedge := hresembles.right b hb
      have hname := not_isNameStart_of_resembles hnone hresembles b hb
      refine ⟨hedge.isNameChar_eq.trans hname, hedge.ne_backslash, ?_⟩
      rw [← Bool.not_eq_true]
      exact fun hb' => hspace ⟨b, hb, hb'⟩
  · refine split_append_right hshort hkeep ?_ other
    rintro rfl
    cases text with
    | nil => exact hbackslash rfl rfl
    | cons c text =>
        have hline : c ≠ '\n' := (hresembles.left c rfl).ne_lineFeed
        simp only [List.cons_append, List.nil_append, splitUnit?,
          show isNameChar '\\' = false by decide, beq_iff_eq, hline, if_false,
          Bool.false_eq_true] at hnone
        split at hnone <;> cases hnone

/-! ## Replacing what stands behind the start of a name -/

theorem startsEscape_cons {c : Char} (hc : c ≠ '\\') (rest : List Char) :
    startsEscape (c :: rest) = false := by
  unfold startsEscape
  split
  · rename_i heq
    cases heq
    exact absurd rfl hc
  · rfl

/-- A unit is a name character or an escape. -/
theorem splitUnit?_isSome (text : List Char) :
    (splitUnit? text).isSome = (text.head?.any isNameChar || startsEscape text) := by
  cases text with
  | nil => rfl
  | cons c rest =>
      rw [List.head?_cons, Option.any_some]
      by_cases hc : isNameChar c = true
      · simp [splitUnit?, hc]
      · by_cases hbackslash : c = '\\'
        · subst hbackslash
          cases rest with
          | nil => rfl
          | cons d rest =>
              by_cases hd : d = '\n'
              · subst hd
                rfl
              · have hsome : (splitUnit? ('\\' :: d :: rest)).isSome = true := by
                  simp only [splitUnit?, hc, beq_iff_eq, hd, if_false, Bool.false_eq_true]
                  split <;> rfl
                have hescape : startsEscape ('\\' :: d :: rest) = true := by
                  simpa [startsEscape] using hd
                rw [hsome, hescape, Bool.or_true]
        · simp [splitUnit?, hc, hbackslash, startsEscape_cons hbackslash]

section Tests

variable {more other : List Char}

theorem startsEscape_edge (h : StartsEdge more) : startsEscape more = false := by
  cases more with
  | nil => rfl
  | cons b more => exact startsEscape_cons (h b rfl).ne_backslash more

theorem startsEscape_backslash (h : StartsEdge more) (hne : more ≠ []) :
    startsEscape ('\\' :: more) = true := by
  cases more with
  | nil => exact absurd rfl hne
  | cons b more =>
      have hline : b ≠ '\n' := (h b rfl).ne_lineFeed
      simpa [startsEscape] using hline

theorem startsEscape_of_resembles (h : Resembles more other)
    (hbackslash : text = ['\\'] -> more ≠ [] ∧ other ≠ []) :
    startsEscape (text ++ more) = startsEscape (text ++ other) := by
  match text with
  | [] => rw [List.nil_append, List.nil_append, startsEscape_edge h.left, startsEscape_edge h.right]
  | [c] =>
      by_cases hc : c = '\\'
      · subst hc
        rcases hbackslash rfl with ⟨hleft, hright⟩
        exact (startsEscape_backslash h.left hleft).trans
          (startsEscape_backslash h.right hright).symm
      · exact (startsEscape_cons hc more).trans (startsEscape_cons hc other).symm
  | c :: d :: rest =>
      by_cases hc : c = '\\'
      · subst hc
        rfl
      · exact (startsEscape_cons hc _).trans (startsEscape_cons hc _).symm

theorem splitUnit?_isSome_of_resembles (h : Resembles more other)
    (hbackslash : text = ['\\'] -> more ≠ [] ∧ other ≠ []) :
    (splitUnit? (text ++ more)).isSome = (splitUnit? (text ++ other)).isSome := by
  rw [splitUnit?_isSome, splitUnit?_isSome, startsEscape_of_resembles h hbackslash]
  cases text with
  | nil =>
      have hchar : forall {text : List Char}, StartsEdge text ->
          text.head?.any isNameChar = text.head?.any isNameStart := by
        intro text htext
        cases text with
        | nil => rfl
        | cons b text => exact (htext b rfl).isNameChar_eq
      rw [List.nil_append, List.nil_append, hchar h.left, hchar h.right, h.name]
  | cons c rest => rfl

theorem startsIdent_edge (h : StartsEdge more) : startsIdent more = more.head?.any isNameStart := by
  cases more with
  | nil => rfl
  | cons b more =>
      unfold startsIdent
      split
      · rename_i heq
        cases heq
        exact absurd rfl (h _ rfl).ne_hyphen
      · rename_i heq
        cases heq
        rw [startsEscape_edge h, Bool.or_false]
        rfl
      · rename_i heq
        cases heq

theorem startsIdent_hyphen_edge (h : StartsEdge more) :
    startsIdent ('-' :: more) = more.head?.any isNameStart := by
  cases more with
  | nil => rfl
  | cons b more =>
      rw [startsIdent, startsEscape_edge h, beq_false_of_ne (h b rfl).ne_hyphen, Bool.or_false,
        Bool.or_false]
      rfl

theorem startsIdent_cons {c : Char} (hc : c ≠ '-') (rest : List Char) :
    startsIdent (c :: rest) = (isNameStart c || startsEscape (c :: rest)) := by
  rw [startsIdent]
  rintro d more rfl
  exact absurd rfl hc

theorem startsIdent_of_resembles (h : Resembles more other)
    (hbackslash : text = ['\\'] ∨ text = ['-', '\\'] -> more ≠ [] ∧ other ≠ []) :
    startsIdent (text ++ more) = startsIdent (text ++ other) := by
  have hescape := startsEscape_of_resembles h fun htext => hbackslash (Or.inl htext)
  match text with
  | [] =>
      rw [List.nil_append, List.nil_append, startsIdent_edge h.left, startsIdent_edge h.right,
        h.name]
  | c :: rest =>
      by_cases hc : c = '-'
      · subst hc
        cases rest with
        | nil =>
            exact (startsIdent_hyphen_edge h.left).trans
              (h.name.trans (startsIdent_hyphen_edge h.right).symm)
        | cons d rest =>
            have hrest : startsEscape (d :: rest ++ more) = startsEscape (d :: rest ++ other) := by
              apply startsEscape_of_resembles h
              intro htext
              exact hbackslash (Or.inr (congrArg ('-' :: ·) htext))
            simp only [List.cons_append, startsIdent] at hrest ⊢
            rw [hrest]
      · rw [List.cons_append, List.cons_append] at hescape ⊢
        rw [startsIdent_cons hc, startsIdent_cons hc, hescape]

end Tests

end Name
end Stylesheet
