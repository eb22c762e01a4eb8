import Stylesheet.Proofs.Token.Extension.Opening

/-!
# Openings that are not closed

Strings, comments and unquoted addresses have to be closed.  Main statements: when the text behind
a quote closes no string, when the text behind the opening of a comment closes no comment, and when
the text behind the opening of an address closes no address or breaks it by spaces.
-/

namespace Stylesheet
namespace Lexeme

open Character

/-! ## Escapes -/

section Escapes

variable {c d : Char} {front back rest : List Char}

/-- A text ends with a backslash that none before it escapes. -/
theorem endsInBackslash_concat (front : List Char) (c : Char) :
    endsInBackslash (front ++ [c]) = (c == '\\' && !endsInBackslash front) := by
  induction front using endsInBackslash.induct with
  | case1 =>
      by_cases hc : c = '\\'
      · subst hc
        rfl
      · rw [List.nil_append, endsInBackslash_cons hc, beq_false_of_ne hc]
        rfl
  | case2 => exact (Bool.and_false _).symm
  | case3 d rest ih => exact ih
  | case4 d rest hlast hescape ih =>
      have hd : d ≠ '\\' := by
        rintro rfl
        cases rest with
        | nil => exact hlast rfl rfl
        | cons e rest => exact hescape e rest rfl rfl
      rw [List.cons_append, endsInBackslash_cons hd, endsInBackslash_cons hd]
      exact ih

/-- Behind an escape a text is cut where the text behind the escape is. -/
theorem exists_front_of_escape (hd : d ≠ '\\') (heq : '\\' :: c :: rest = front ++ d :: back)
    (hfront : endsInBackslash front = false) :
    exists front', front = '\\' :: c :: front' ∧ rest = front' ++ d :: back := by
  match front with
  | [] => exact absurd (List.cons.inj heq).left.symm hd
  | [e] =>
      injection heq with he heq
      subst he
      cases hfront
  | e :: e' :: front' =>
      injection heq with he heq
      injection heq with he' heq
      subst he he'
      exact ⟨front', rfl, heq⟩

theorem exists_front_of_cons (hc : c ≠ d) (heq : c :: rest = front ++ d :: back) :
    exists front', front = c :: front' ∧ rest = front' ++ d :: back := by
  cases front with
  | nil => exact absurd (List.cons.inj heq).left hc
  | cons e front' =>
      injection heq with he heq
      subst he
      exact ⟨front', rfl, heq⟩

end Escapes

/-! ## Strings -/

/-- Every quote that no backslash escapes stands behind a line feed that none escapes either. -/
def IsOpenString (quote : Char) (text : List Char) : Prop :=
  forall front back, text = front ++ quote :: back -> endsInBackslash front = false ->
    exists line more, front = line ++ '\n' :: more ∧ endsInBackslash line = false

section Strings

variable {quote c : Char} {rest : List Char}

theorem ne_of_isQuote (h : isQuote quote = true) : quote ≠ '\n' ∧ quote ≠ '\\' := by
  constructor
  · rintro rfl
    cases h
  · rintro rfl
    cases h

theorem isOpenString_nil (quote : Char) : IsOpenString quote [] := by
  intro front back heq
  cases front <;> cases heq

theorem isOpenString_lineFeed (hquote : quote ≠ '\n') (rest : List Char) :
    IsOpenString quote ('\n' :: rest) := by
  intro front back heq hfront
  rcases exists_front_of_cons hquote.symm heq with ⟨front, rfl, _⟩
  exact ⟨[], front, rfl, rfl⟩

/-- A character behind a backslash closes nothing. -/
theorem isOpenString_escape (hquote : quote ≠ '\\') (c : Char) :
    IsOpenString quote ('\\' :: c :: rest) <-> IsOpenString quote rest := by
  constructor
  · intro h front back heq hfront
    rcases h ('\\' :: c :: front) back (by rw [heq]; rfl) hfront with ⟨line, more, hline, hends⟩
    rcases exists_front_of_escape (by decide) hline hends with ⟨line, rfl, rfl⟩
    exact ⟨line, more, rfl, hends⟩
  · intro h front back heq hfront
    rcases exists_front_of_escape hquote heq hfront with ⟨front, rfl, hrest⟩
    rcases h front back hrest hfront with ⟨line, more, rfl, hends⟩
    exact ⟨'\\' :: c :: line, more, rfl, hends⟩

theorem isOpenString_cons (hquote : c ≠ quote) (hfeed : c ≠ '\n') (hbackslash : c ≠ '\\') :
    IsOpenString quote (c :: rest) <-> IsOpenString quote rest := by
  constructor
  · intro h front back heq hfront
    rw [← endsInBackslash_cons hbackslash] at hfront
    rcases h (c :: front) back (by rw [heq]; rfl) hfront with ⟨line, more, hline, hends⟩
    rcases exists_front_of_cons hfeed hline with ⟨line, rfl, rfl⟩
    rw [endsInBackslash_cons hbackslash] at hends
    exact ⟨line, more, rfl, hends⟩
  · intro h front back heq hfront
    rcases exists_front_of_cons hquote heq with ⟨front, rfl, hrest⟩
    rw [endsInBackslash_cons hbackslash] at hfront
    rcases h front back hrest hfront with ⟨line, more, rfl, hends⟩
    rw [← endsInBackslash_cons hbackslash] at hends
    exact ⟨c :: line, more, rfl, hends⟩

/-- A string is read unless its quote stays open. -/
theorem splitString?_eq_none_iff (h : isQuote quote = true) (text : List Char) :
    splitString? quote text = none <-> IsOpenString quote text := by
  rcases ne_of_isQuote h with ⟨hfeed, hbackslash⟩
  fun_induction splitString? quote text with
  | case1 => exact iff_of_true rfl (isOpenString_nil quote)
  | case2 c rest ih => rw [Option.map_eq_none_iff, isOpenString_escape hbackslash, ih]
  | case3 c rest hescape hc =>
      refine iff_of_true rfl ?_
      rw [Bool.or_eq_true, beq_iff_eq, beq_iff_eq] at hc
      rcases hc with rfl | rfl
      · exact isOpenString_lineFeed hfeed rest
      · intro front back heq
        rcases exists_front_of_cons hbackslash.symm heq with ⟨front, rfl, rfl⟩
        cases front with
        | nil => exact absurd rfl (hescape quote back rfl)
        | cons d front => exact absurd rfl (hescape d (front ++ quote :: back) rfl)
  | case4 c rest hescape hc hquote =>
      refine iff_of_false (Option.some_ne_none _) ?_
      intro hopen
      rw [beq_iff_eq] at hquote
      rcases hopen [] rest (by rw [hquote]; rfl) rfl with ⟨line, more, hline, _⟩
      cases line <;> cases hline
  | case5 c rest hescape hc hother ih =>
      rw [Bool.or_eq_true, beq_iff_eq, beq_iff_eq, not_or] at hc
      rw [beq_iff_eq] at hother
      rw [Option.map_eq_none_iff, ih, isOpenString_cons hother hc.left hc.right]

end Strings

/-! ## Comments -/

/-- A comment is read unless its end is missing. -/
theorem splitComment?_eq_none_iff (text : List Char) :
    splitComment? text = none <-> ¬ ['*', '/'] <:+: text := by
  fun_induction splitComment? text with
  | case1 => simp
  | case2 rest =>
      refine iff_of_false (Option.some_ne_none _) ?_
      intro hend
      exact hend ⟨[], rest, rfl⟩
  | case3 c rest hend ih =>
      have hfirst : ¬ ['*', '/'] <+: c :: rest := by
        rintro ⟨more, heq⟩
        injection heq with hc hrest
        exact hend more hc.symm hrest.symm
      rw [Option.map_eq_none_iff, ih, List.infix_cons_iff, or_iff_right hfirst]

/-! ## Addresses -/

/-- A character of an address that is not escaped; a line feed never is. -/
def IsFree (front : List Char) (c : Char) : Prop :=
  endsInBackslash front = false ∨ c = '\n'

/-- A text without free parentheses and spaces. -/
def IsPlain (text : List Char) : Prop :=
  forall front c back, text = front ++ c :: back -> IsFree front c -> c ≠ ')' ∧ isSpace c = false

/-- Every parenthesis of a text is escaped. -/
def IsOpenAddress (text : List Char) : Prop :=
  forall front back, text = front ++ ')' :: back -> endsInBackslash front = true

/-- The first free parenthesis or space of a text. -/
structure StopsAt (text front : List Char) (c : Char) (back : List Char) : Prop where
  split : text = front ++ c :: back
  plain : IsPlain front
  free : IsFree front c
  stops : c = ')' ∨ isSpace c = true

/-- The spaces from the first free one on, when no parenthesis follows them directly. -/
def IsBrokenBy (text front run : List Char) : Prop :=
  exists c back, StopsAt text front c back ∧ isSpace c = true ∧
    run = c :: back.takeWhile isSpace ∧ (back.dropWhile isSpace).head? ≠ some ')'

section Addresses

variable {c d : Char} {text front back rest run : List Char}

/-- A backslash in front of a line feed or of nothing escapes nothing. -/
def IsBare (c : Char) (rest : List Char) : Prop :=
  c = '\\' -> forall d more, rest = d :: more -> d = '\n'

theorem isFree_cons (hbare : IsBare c rest) (hrest : rest = front ++ d :: back) :
    IsFree (c :: front) d <-> IsFree front d := by
  unfold IsFree
  by_cases hc : c = '\\'
  · subst hc
    cases front with
    | nil =>
        have hd := hbare rfl d back hrest
        exact iff_of_true (Or.inr hd) (Or.inr hd)
    | cons e front =>
        have he := hbare rfl e _ hrest
        subst he
        rw [endsInBackslash, endsInBackslash_cons (by decide)]
  · rw [endsInBackslash_cons hc]

theorem isPlain_nil : IsPlain [] := by
  intro front c back heq
  cases front <;> cases heq

theorem isPlain_cons (hbare : IsBare c rest) (hc : c ≠ ')') (hspace : isSpace c = false)
    (hrest : IsPlain rest) : IsPlain (c :: rest) := by
  intro front d back heq hfree
  cases front with
  | nil =>
      injection heq with hd heq
      subst hd
      exact ⟨hc, hspace⟩
  | cons e front =>
      injection heq with he heq
      subst he
      exact hrest front d back heq ((isFree_cons hbare heq).mp hfree)

theorem isPlain_escape (hd : d ≠ '\n') (hrest : IsPlain rest) :
    IsPlain ('\\' :: d :: rest) := by
  intro front c back heq hfree
  match front with
  | [] =>
      injection heq with hc heq
      subst hc
      exact ⟨by decide, rfl⟩
  | [e] =>
      injection heq with he heq
      injection heq with hc heq
      subst he hc
      exact (hfree.elim Bool.noConfusion hd).elim
  | e :: e' :: front =>
      injection heq with he heq
      injection heq with he' heq
      subst he
      exact hrest front c back heq hfree

namespace StopsAt

theorem here (hc : c = ')' ∨ isSpace c = true) (rest : List Char) :
    StopsAt (c :: rest) [] c rest :=
  ⟨rfl, isPlain_nil, Or.inl rfl, hc⟩

theorem cons (h : StopsAt rest front d back) (hbare : IsBare c rest) (hc : c ≠ ')')
    (hspace : isSpace c = false) : StopsAt (c :: rest) (c :: front) d back where
  split := congrArg (c :: ·) h.split
  plain := by
    refine isPlain_cons ?_ hc hspace h.plain
    intro hbackslash e more heq
    refine hbare hbackslash e (more ++ d :: back) ?_
    rw [h.split, heq]
    rfl
  free := (isFree_cons hbare h.split).mpr h.free
  stops := h.stops

theorem escape (h : StopsAt rest front c back) (hd : d ≠ '\n') :
    StopsAt ('\\' :: d :: rest) ('\\' :: d :: front) c back where
  split := by
    rw [h.split]
    rfl
  plain := isPlain_escape hd h.plain
  free := h.free
  stops := h.stops

theorem not_isPlain {more : List Char} (h : StopsAt text front c back) :
    ¬ IsPlain (front ++ c :: more) := by
  intro hplain
  rcases hplain front c more rfl h.free with ⟨hc, hspace⟩
  rcases h.stops with rfl | hstops
  · exact hc rfl
  · rw [hspace] at hstops
    cases hstops

/-- Only one parenthesis or space is the first. -/
theorem unique {front' back' : List Char} (h : StopsAt text front c back)
    (h' : StopsAt text front' d back') : front = front' ∧ c = d ∧ back = back' := by
  have heq := h.split.symm.trans h'.split
  rcases List.append_eq_append_iff.mp heq with ⟨more, hfront, hback⟩ | ⟨more, hfront, hback⟩
  · cases more with
    | nil =>
        rw [List.append_nil] at hfront
        injection hback with hc hback
        exact ⟨hfront.symm, hc, hback⟩
    | cons e more =>
        injection hback with hc hback
        subst hc
        exact (h.not_isPlain (hfront ▸ h'.plain)).elim
  · cases more with
    | nil =>
        rw [List.append_nil] at hfront
        injection hback with hc hback
        exact ⟨hfront, hc.symm, hback.symm⟩
    | cons e more =>
        injection hback with hc hback
        subst hc
        exact (h'.not_isPlain (hfront ▸ h.plain)).elim

end StopsAt

/-! ## Reading an address -/

theorem extend_nil (result : Except LexFailure Address) : Address.extend [] result = result := by
  unfold Address.extend
  split <;> rfl

theorem extend_append (left right : List Char) (result : Except LexFailure Address) :
    Address.extend (left ++ right) result = Address.extend left (Address.extend right result) := by
  cases result with
  | ok address => simp [Address.extend]
  | error failure =>
      rcases failure with ⟨fault, read⟩
      cases fault <;> simp [Address.extend]

/-- An address is read up to its first free parenthesis or space. -/
inductive IsReadUpTo (text : List Char) : Except LexFailure Address -> Prop
  | plain (h : IsPlain text) : IsReadUpTo text (.error ⟨.unterminatedUrl, []⟩)
  | stops {front back : List Char} {c : Char} (h : StopsAt text front c back) :
      IsReadUpTo text (Address.extend front (splitAddress (c :: back)))

namespace IsReadUpTo

variable {result : Except LexFailure Address}

theorem here (hc : c = ')' ∨ isSpace c = true) (rest : List Char) :
    IsReadUpTo (c :: rest) (splitAddress (c :: rest)) := by
  have hstops := IsReadUpTo.stops (StopsAt.here hc rest)
  rw [extend_nil] at hstops
  exact hstops

theorem cons (h : IsReadUpTo rest result) (hbare : IsBare c rest) (hc : c ≠ ')')
    (hspace : isSpace c = false) : IsReadUpTo (c :: rest) (Address.extend [c] result) := by
  cases h with
  | plain h => exact plain (isPlain_cons hbare hc hspace h)
  | stops h =>
      rw [← extend_append]
      exact stops (h.cons hbare hc hspace)

theorem escape (h : IsReadUpTo rest result) (hd : d ≠ '\n') :
    IsReadUpTo ('\\' :: d :: rest) (Address.extend ['\\', d] result) := by
  cases h with
  | plain h => exact plain (isPlain_escape hd h)
  | stops h =>
      rw [← extend_append]
      exact stops (h.escape hd)

end IsReadUpTo

theorem isReadUpTo_splitAddress (text : List Char) : IsReadUpTo text (splitAddress text) := by
  induction text using splitAddress.induct with
  | case1 => exact IsReadUpTo.plain isPlain_nil
  | case2 d rest hd ih =>
      rw [splitAddress, if_pos hd]
      refine ih.cons ?_ (by decide) rfl
      intro _ e more heq
      injection heq with he
      exact he ▸ beq_iff_eq.mp hd
  | case3 d rest hd ih =>
      rw [splitAddress, if_neg hd]
      rw [beq_iff_eq] at hd
      exact ih.escape hd
  | case4 c rest hescape hc => exact IsReadUpTo.here (Or.inl (beq_iff_eq.mp hc)) rest
  | case5 c rest hescape hc hspace after heq => exact IsReadUpTo.here (Or.inr hspace) rest
  | case6 c rest hescape hc hspace => exact IsReadUpTo.here (Or.inr hspace) rest
  | case7 c rest hescape hc hspace ih =>
      rw [splitAddress, if_neg hc, if_neg hspace]
      · rw [beq_iff_eq] at hc
        rw [Bool.not_eq_true] at hspace
        refine ih.cons ?_ hc hspace
        intro hbackslash e more heq
        exact (hescape e more hbackslash heq).elim
      · exact hescape

theorem splitAddress_of_isPlain (h : IsPlain text) :
    splitAddress text = .error ⟨.unterminatedUrl, []⟩ := by
  have hread := isReadUpTo_splitAddress text
  generalize splitAddress text = result at hread
  cases hread with
  | plain => rfl
  | stops hstops => exact (hstops.not_isPlain (hstops.split ▸ h)).elim

theorem splitAddress_of_stopsAt (h : StopsAt text front c back) :
    splitAddress text = Address.extend front (splitAddress (c :: back)) := by
  have hread := isReadUpTo_splitAddress text
  generalize splitAddress text = result at hread
  cases hread with
  | plain hplain => exact (h.not_isPlain (h.split ▸ hplain)).elim
  | stops hstops =>
      rcases h.unique hstops with ⟨rfl, rfl, rfl⟩
      rfl

/-- Spaces close an address in front of a parenthesis, and break it otherwise. -/
theorem splitAddress_space (hspace : isSpace c = true) (rest : List Char) :
    (exists after, rest.dropWhile isSpace = ')' :: after ∧
      splitAddress (c :: rest) = .ok ⟨[], c :: rest.takeWhile isSpace, after⟩) ∨
    (rest.dropWhile isSpace).head? ≠ some ')' ∧
      splitAddress (c :: rest) = .error ⟨.spaceInUrl, c :: rest.takeWhile isSpace⟩ := by
  have hbackslash : c ≠ '\\' := by
    rintro rfl
    cases hspace
  have hparen : (c == ')') = false := by
    rw [beq_eq_false_iff_ne]
    rintro rfl
    cases hspace
  rw [splitAddress, hparen, if_neg Bool.false_ne_true, if_pos hspace]
  · split
    · rename_i after heq
      exact Or.inl ⟨after, heq, rfl⟩
    · rename_i hother
      refine Or.inr ⟨?_, rfl⟩
      intro hhead
      rcases List.head?_eq_some_iff.mp hhead with ⟨after, heq⟩
      exact hother after heq
  · intro d more heq
    exact absurd heq hbackslash

/-- An address fails without a free parenthesis or space, or by spaces that break it. -/
theorem splitAddress_eq_error_iff {failure : LexFailure} :
    splitAddress text = .error failure <->
      IsPlain text ∧ failure = ⟨.unterminatedUrl, []⟩ ∨
        exists front run, IsBrokenBy text front run ∧
          failure = ⟨.spaceInUrl, front ++ run⟩ := by
  constructor
  · intro h
    have hread := isReadUpTo_splitAddress text
    rw [h] at hread
    generalize hresult : (Except.error failure : Except LexFailure Address) = result at hread
    cases hread with
    | plain hplain =>
        cases hresult
        exact Or.inl ⟨hplain, rfl⟩
    | @stops front back c hstops =>
        rcases hstops.stops with rfl | hspace
        · rw [splitAddress_paren] at hresult
          cases hresult
        · rcases splitAddress_space hspace back with ⟨after, _, hclosed⟩ | ⟨hbroken, hfailed⟩
          · rw [hclosed] at hresult
            cases hresult
          · rw [hfailed] at hresult
            cases hresult
            exact Or.inr ⟨front, _, ⟨c, back, hstops, hspace, rfl, hbroken⟩, rfl⟩
  · rintro (⟨hplain, rfl⟩ | ⟨front, run, ⟨c, back, hstops, hspace, rfl, hbroken⟩, rfl⟩)
    · exact splitAddress_of_isPlain hplain
    · rw [splitAddress_of_stopsAt hstops]
      rcases splitAddress_space hspace back with ⟨after, hafter, _⟩ | ⟨_, hfailed⟩
      · rw [hafter] at hbroken
        exact absurd rfl hbroken
      · rw [hfailed]
        rfl

/-! ## Addresses that stay open -/

theorem StopsAt.not_isOpenAddress (h : StopsAt text front ')' back) : ¬ IsOpenAddress text := by
  intro hopen
  have hends := hopen front back h.split
  rcases h.free with hfree | hfeed
  · rw [hends] at hfree
    cases hfree
  · cases hfeed

/-- No space escapes the parenthesis behind it. -/
theorem not_endsInBackslash_of_spaces (hne : run ≠ [])
    (hrun : forall c, c ∈ run -> isSpace c = true) (front : List Char) :
    endsInBackslash (front ++ run) = false := by
  rcases List.eq_nil_or_concat run with rfl | ⟨init, last, rfl⟩
  · exact absurd rfl hne
  · rw [List.concat_eq_append] at hrun ⊢
    have hlast : (last == '\\') = false := by
      rw [beq_eq_false_iff_ne]
      rintro rfl
      cases hrun '\\' (List.mem_append_right init List.mem_cons_self)
    rw [← List.append_assoc, endsInBackslash_concat, hlast, Bool.false_and]

theorem StopsAt.not_isOpenAddress_of_space (h : StopsAt text front c back)
    (hspace : isSpace c = true) (hclosed : (back.dropWhile isSpace).head? = some ')') :
    ¬ IsOpenAddress text := by
  intro hopen
  rcases List.head?_eq_some_iff.mp hclosed with ⟨after, hafter⟩
  have hrun : forall d, d ∈ c :: back.takeWhile isSpace -> isSpace d = true := by
    intro d hd
    rcases List.mem_cons.mp hd with rfl | hd
    · exact hspace
    · exact List.mem_takeWhile_imp hd
  have hsplit : text = (front ++ c :: back.takeWhile isSpace) ++ ')' :: after := by
    rw [List.append_assoc, List.cons_append, ← hafter, List.takeWhile_append_dropWhile]
    exact h.split
  have hends := hopen _ after hsplit
  rw [not_endsInBackslash_of_spaces (List.cons_ne_nil c _) hrun] at hends
  cases hends

/-- A text is plain when it closes no address and no spaces break it. -/
theorem isPlain_iff :
    IsPlain text <-> IsOpenAddress text ∧ forall front run, ¬ IsBrokenBy text front run := by
  constructor
  · intro h
    constructor
    · intro front back heq
      rw [← Bool.not_eq_false]
      intro hends
      exact (h front ')' back heq (Or.inl hends)).left rfl
    · rintro front run ⟨c, back, hstops, _⟩
      exact hstops.not_isPlain (hstops.split ▸ h)
  · rintro ⟨hopen, hunbroken⟩
    have hread := isReadUpTo_splitAddress text
    generalize splitAddress text = result at hread
    cases hread with
    | plain h => exact h
    | @stops front back c hstops =>
        exfalso
        rcases hstops.stops with rfl | hspace
        · exact hstops.not_isOpenAddress hopen
        · by_cases hclosed : (back.dropWhile isSpace).head? = some ')'
          · exact hstops.not_isOpenAddress_of_space hspace hclosed hopen
          · exact hunbroken front _ ⟨c, back, hstops, hspace, rfl, hclosed⟩

end Addresses

end Lexeme
end Stylesheet
