import Stylesheet.Proofs.Value.Minified

/-!
# Tokens in front of marks

A selector is written without the whitespace around its combinators, so that its names stand in
front of characters that a name does not go on with, but that other tests look at.
-/

namespace Stylesheet

open Character

/-- The characters that stand behind the names of a selector. -/
def marks : List Char :=
  [' ', '>', '+', '~', '.', '#', '[', ':', '*', ',', ')', ']', '=', '|', '^', '$']

/-- A text that begins with a mark, if it is not empty. -/
def StartsMark (text : List Char) : Prop :=
  forall b, b ∈ text.head? -> b ∈ marks

theorem not_isNameChar_of_mem_marks {b : Char} (h : b ∈ marks) :
    isNameChar b = false ∧ b ≠ '\\' ∧ b ≠ '(' ∧ (isSpace b = true -> b = ' ') := by
  have hall : marks.all (fun b => !isNameChar b && b != '\\' && b != '(' &&
      (!isSpace b || b == ' ')) = true := by
    decide
  have hchar := List.all_eq_true.mp hall b h
  simp only [Bool.and_eq_true, Bool.or_eq_true, Bool.not_eq_true', bne_iff_ne, beq_iff_eq,
    and_assoc] at hchar
  rcases hchar with ⟨hname, hbackslash, hparen, hspace⟩
  refine ⟨hname, hbackslash, hparen, ?_⟩
  intro hb
  rcases hspace with hspace | hspace
  · rw [hspace] at hb
    cases hb
  · exact hspace

/-! ## Names -/

namespace Name

/-- A name ends in front of a mark, unless its last escape takes in a blank. -/
theorem split_mark {name target : List Char} (h : split name = (name, []))
    (hmark : StartsMark target) (hends : Ends name target) :
    split (name ++ target) = (name, target) := by
  cases target with
  | nil =>
      rw [List.append_nil]
      exact h
  | cons b more =>
      rcases not_isNameChar_of_mem_marks (hmark b rfl) with ⟨hname, hbackslash, _, hblank⟩
      cases hspace : isSpace b with
      | true =>
          have hopen := hends b rfl hspace
          obtain rfl := hblank hspace
          exact split_blank hopen more
      | false =>
          refine split_append_edge ?_ h (List.cons_ne_nil _ _).symm
          rintro _ ⟨⟩
          exact ⟨hname, hbackslash, hspace⟩

/-- What stands behind the first character of a name is a name. -/
theorem split_tail {c : Char} {rest : List Char} (hc : isNameChar c = true)
    (h : split (c :: rest) = (c :: rest, [])) : split rest = (rest, []) := by
  have hfirst : (split rest).1 = rest := by
    have hcons := split_cons hc rest
    rw [h] at hcons
    exact (List.cons.inj hcons).2.symm
  have happend := split_append rest
  rw [hfirst, List.append_right_eq_self] at happend
  exact Prod.ext hfirst happend

theorem isNameChar_of_split {c : Char} {rest : List Char}
    (h : split (c :: rest) = (c :: rest, [])) : isNameChar c = true ∨ c = '\\' := by
  have hsome : (splitUnit? (c :: rest)).isSome = true := by
    rw [splitUnit?_isSome_iff, h]
    exact List.cons_ne_nil c rest
  rw [splitUnit?_isSome, Bool.or_eq_true] at hsome
  refine hsome.imp_right ?_
  intro hescape
  by_contra hc
  rw [startsEscape_cons hc] at hescape
  cases hescape

/-- The first characters of an identifier. -/
theorem startsIdent_cases {text : List Char} (h : startsIdent text = true) :
    exists c rest, text = c :: rest ∧
      ((isNameStart c = true ∨ c = '\\') ∨
        c = '-' ∧ exists d more, rest = d :: more ∧
          (isNameStart d = true ∨ d = '\\' ∨ d = '-')) := by
  have hescape : forall {c : Char} {rest : List Char}, startsEscape (c :: rest) = true ->
      c = '\\' := by
    intro c rest hescape
    by_contra hc
    rw [startsEscape_cons hc] at hescape
    cases hescape
  unfold startsIdent at h
  split at h
  · rename_i d more
    rw [Bool.or_eq_true, Bool.or_eq_true, beq_iff_eq] at h
    refine ⟨'-', d :: more, rfl, Or.inr ⟨rfl, d, more, rfl, ?_⟩⟩
    rcases h with (hname | hhyphen) | hbackslash
    · exact Or.inl hname
    · exact Or.inr (Or.inr hhyphen)
    · exact Or.inr (Or.inl (hescape hbackslash))
  · rename_i c rest _
    rw [Bool.or_eq_true] at h
    exact ⟨c, rest, rfl, Or.inl (h.imp_right hescape)⟩
  · cases h

end Name

namespace Numeral

theorem not_isNameStart_of_isDigit {c : Char} (h : isDigit c = true) : isNameStart c = false := by
  rw [← Bool.not_eq_true]
  intro hname
  simp only [isDigit, isNameStart, isLetter, isWide, Bool.or_eq_true, Bool.and_eq_true,
    decide_eq_true_eq, beq_iff_eq, Char.le_def, UInt32.le_iff_toNat_le, Char.toNat] at h hname
  change 48 ≤ c.val.toNat ∧ c.val.toNat ≤ 57 at h
  rcases hname with ((hname | hname) | rfl) | hname
  · change 97 ≤ c.val.toNat ∧ _ at hname
    omega
  · change 65 ≤ c.val.toNat ∧ _ at hname
    omega
  · exact absurd h (by decide)
  · omega

/-- The characters that an identifier begins with begin no numeral. -/
theorem startsUnsigned_name {c : Char} (h : isNameStart c = true ∨ c = '\\' ∨ c = '-')
    (rest : List Char) : startsUnsigned (c :: rest) = false := by
  have hdigit : isDigit c = false := by
    rcases h with hname | rfl | rfl
    · rw [← Bool.not_eq_true]
      intro hdigit
      rw [not_isNameStart_of_isDigit hdigit] at hname
      cases hname
    · rfl
    · rfl
  unfold startsUnsigned
  split
  · rename_i heq
    cases heq
    exact absurd h (by decide)
  · exact hdigit

/-- What begins like an identifier is no numeral. -/
theorem not_starts_of_startsIdent {text : List Char} (h : Name.startsIdent text = true) :
    starts text = false := by
  rcases Name.startsIdent_cases h with ⟨c, rest, rfl, hc | ⟨rfl, d, more, rfl, hd⟩⟩
  · have hsign : isSign c = false := by
      rw [← Bool.not_eq_true, isSign, Bool.or_eq_true, beq_iff_eq, beq_iff_eq]
      rintro (rfl | rfl)
      · exact absurd hc (by decide)
      · exact absurd hc (by decide)
    rw [starts, splitSign, hsign]
    exact startsUnsigned_name (hc.imp_right Or.inl) rest
  · exact startsUnsigned_name hd more

end Numeral

namespace Lexeme

variable {c : Char} {body target : List Char}

/-- A name is read where the tests before it fail. -/
theorem branch_of_startsIdent {rest : List Char} (hident : Name.startsIdent (c :: rest) = true)
    (harrow : c = '-' -> ['-', '>'].isPrefixOf rest = false)
    (hrange : c = 'u' ∨ c = 'U' -> startsRange rest = false) : branch c rest = .named := by
  have hstart : isNameStart c = true ∨ c = '\\' ∨ c = '-' := by
    rcases Name.startsIdent_cases hident with ⟨_, _, heq, hc | ⟨hc, _⟩⟩
    · cases heq
      exact hc.imp_right Or.inl
    · cases heq
      exact Or.inr (Or.inr hc)
  have hne : forall d, isNameStart d = false -> d ≠ '\\' -> d ≠ '-' -> c ≠ d := by
    rintro d hname hbackslash hhyphen rfl
    rcases hstart with hd | hd | hd
    · rw [hname] at hd
      cases hd
    · exact hbackslash hd
    · exact hhyphen hd
  have hspace : isSpace c = false := by
    rw [← Bool.not_eq_true]
    intro hspace
    simp only [isSpace, Bool.or_eq_true, beq_iff_eq] at hspace
    rcases hspace with (((rfl | rfl) | rfl) | rfl) | rfl
    all_goals exact absurd rfl (hne _ (by decide) (by decide) (by decide))
  have hquote : isQuote c = false := by
    rw [isQuote, beq_false_of_ne (hne '"' (by decide) (by decide) (by decide)),
      beq_false_of_ne (hne '\'' (by decide) (by decide) (by decide))]
    rfl
  have hpunctuation : punctuation? c = none := by
    unfold punctuation?
    split
    case h_10 => rfl
    all_goals exact absurd rfl (hne _ (by decide) (by decide) (by decide))
  have harrow' : (c == '-' && ['-', '>'].isPrefixOf rest) = false := by
    rw [Bool.and_eq_false_imp, beq_iff_eq]
    exact harrow
  have hrange' : ((c == 'u' || c == 'U') && startsRange rest) = false := by
    rw [Bool.and_eq_false_imp, Bool.or_eq_true, beq_iff_eq, beq_iff_eq]
    exact hrange
  unfold branch
  rw [hspace, hquote, hpunctuation, harrow', hrange', Numeral.not_starts_of_startsIdent hident,
    hident, beq_false_of_ne (hne '/' (by decide) (by decide) (by decide)),
    beq_false_of_ne (hne '#' (by decide) (by decide) (by decide)),
    beq_false_of_ne (hne '<' (by decide) (by decide) (by decide)),
    beq_false_of_ne (hne '@' (by decide) (by decide) (by decide))]
  rfl

/-- An identifier that a text makes nothing else of. -/
structure IsUnjoined (name target : List Char) : Prop where
  range : name = ['u'] ∨ name = ['U'] -> startsRange target = false
  arrow : name = ['-', '-'] -> target.head? ≠ some '>'
  blank : Name.Ends name target

theorem branch_mark (h : branch c body = .named) (hname : Name.split (c :: body) = (c :: body, []))
    (hunjoined : IsUnjoined (c :: body) target) : branch c (body ++ target) = .named := by
  have hident := startsIdent_of_branch h
  refine branch_of_startsIdent (Name.startsIdent_append hident target) ?_ ?_
  · rintro rfl
    have hbody := Name.split_tail (by decide) hname
    cases body with
    | nil => cases hident
    | cons d more =>
        rw [List.cons_append, List.isPrefixOf_cons_cons, Bool.and_eq_false_imp, beq_iff_eq]
        rintro rfl
        have hmore := Name.split_tail (by decide) hbody
        cases more with
        | nil => exact isPrefixOf_singleton (hunjoined.arrow rfl)
        | cons b more =>
            apply isPrefixOf_singleton
            rintro ⟨⟩
            exact absurd (Name.isNameChar_of_split hmore) (by decide)
  · intro hc
    have hbody := Name.split_tail (by rcases hc with rfl | rfl <;> decide) hname
    cases body with
    | nil => exact hunjoined.range (by rcases hc with rfl | rfl <;> decide)
    | cons d more =>
        apply startsRange_cons
        rintro rfl
        exact absurd (Name.isNameChar_of_split hbody) (by decide)

/-- An identifier at the end of all text is read in front of a mark. -/
theorem read_ident_mark {name : String} (h : read c body = .ok ⟨.ident name, c :: body, []⟩)
    (hmark : StartsMark target) (hunjoined : IsUnjoined (c :: body) target) :
    read c (body ++ target) = .ok ⟨.ident name, c :: body, target⟩ := by
  rcases named_of_read h rfl with ⟨hbranch, hnamed⟩
  cases names_of_named hnamed with
  | ident hsplit =>
      rw [read_eq_branch, branch_mark hbranch hsplit hunjoined, Branch.read, ← List.cons_append]
      refine named_of_names (.ident (Name.split_mark hsplit hmark hunjoined.blank) fun hparen => ?_)
      exact absurd (hmark '(' hparen) (by decide)

theorem hash_of_read {rest : List Char} {lexeme : Lexeme} {name : String}
    (h : read c rest = .ok lexeme) (hkind : lexeme.kind = .hash name) :
    c = '#' ∧ (Name.splitUnit? rest).isSome = true ∧ lexeme = marked '#' .hash rest := by
  cases isRead_of_read h with
  | hash hc hunit => exact ⟨hc, hunit, rfl⟩
  | punctuation hpunctuation => exact absurd hkind (ne_of_punctuation? hpunctuation rfl)
  | numeric => exact absurd hkind (numeric_kind_ne _ rfl)
  | named _ hnamed => exact absurd hkind (named_kind_ne hnamed rfl)
  | _ => cases hkind

/-- A name behind a number sign at the end of all text is read in front of a mark. -/
theorem read_hash_mark {name : String} (h : read c body = .ok ⟨.hash name, c :: body, []⟩)
    (hmark : StartsMark target) (hblank : Name.Ends body target) :
    read c (body ++ target) = .ok ⟨.hash name, c :: body, target⟩ := by
  rcases hash_of_read h rfl with ⟨rfl, hunit, heq⟩
  cases hsplit : Name.split body with
  | mk first behind =>
      simp only [marked, hsplit, Lexeme.mk.injEq, TokenKind.hash.injEq, List.cons.injEq,
        true_and] at heq
      obtain ⟨rfl, rfl, rfl⟩ := heq
      have hlong := Name.split_mark hsplit hmark hblank
      have hunit' := Name.splitUnit?_append_isSome hunit target
      have hbranch : branch '#' (body ++ target) = .hash := by
        unfold branch
        rw [hunit']
        rfl
      rw [read_eq_branch, hbranch, Branch.read, marked, hlong]

/-! ## Characters -/

/-- A character that begins no longer token is read as itself. -/
theorem read_delim (hc : c ∈ ['*', '=', '~', '>', '|', '^', '$']) (target : List Char) :
    read c target = .ok ⟨.delim c, [c], target⟩ := by
  apply read_operator (Or.inr hc)
  rintro rfl
  exact absurd hc (by decide)

/-- A plus sign or a point is read as itself where it begins no number. -/
theorem read_sign (hc : c = '+' ∨ c = '.') (h : Numeral.starts (c :: target) = false) :
    read c target = .ok ⟨.delim c, [c], target⟩ := by
  have hident : Name.startsIdent (c :: target) = false := by
    rcases hc with rfl | rfl
    all_goals
      rw [Name.startsIdent_cons (by decide), Name.startsEscape_cons (by decide)]
      rfl
  unfold read
  rw [hident, h]
  rcases hc with rfl | rfl <;> rfl

/-! ## Tokens that are closed -/

theorem comment_of_read {rest : List Char} {lexeme : Lexeme} {content : String}
    (h : read c rest = .ok lexeme) (hkind : lexeme.kind = .comment content) :
    c = '/' ∧ exists behind inner after, rest = '*' :: behind ∧
      splitComment? behind = some (inner, after) ∧
        lexeme = ⟨.comment (String.ofList inner), '/' :: '*' :: inner ++ ['*', '/'], after⟩ := by
  cases isRead_of_read h with
  | comment hc hrest hsplit => exact ⟨hc, _, _, _, hrest, hsplit, rfl⟩
  | punctuation hpunctuation => exact absurd hkind (ne_of_punctuation? hpunctuation rfl)
  | numeric => exact absurd hkind (numeric_kind_ne _ rfl)
  | named _ hnamed => exact absurd hkind (named_kind_ne hnamed rfl)
  | _ => cases hkind

/-- A comment is read whatever follows it. -/
theorem read_comment {text : List Char} {content : String}
    (h : read c (body ++ text) = .ok ⟨.comment content, c :: body, text⟩) (target : List Char) :
    read c (body ++ target) = .ok ⟨.comment content, c :: body, target⟩ := by
  rcases comment_of_read h rfl with ⟨rfl, behind, inner, after, _, hsplit, hlexeme⟩
  simp only [Lexeme.mk.injEq, TokenKind.comment.injEq, List.cons_append,
    List.cons.injEq, true_and] at hlexeme
  obtain ⟨rfl, rfl, rfl⟩ := hlexeme
  have hlong := splitComment?_replace hsplit target
  simp only [List.append_assoc, List.cons_append, List.nil_append]
  rw [read, if_neg (by decide), if_pos (by rfl), List.drop_one, List.tail_cons, hlong]
  simp

theorem string_of_read {rest : List Char} {lexeme : Lexeme} {quoted : String}
    (h : read c rest = .ok lexeme) (hkind : lexeme.kind = .string quoted) :
    isQuote c = true ∧ exists inner after, splitString? c rest = some (inner, after) ∧
      lexeme = ⟨.string (String.ofList (c :: inner)), c :: inner, after⟩ := by
  cases isRead_of_read h with
  | string hquote hsplit => exact ⟨hquote, _, _, hsplit, rfl⟩
  | punctuation hpunctuation => exact absurd hkind (ne_of_punctuation? hpunctuation rfl)
  | numeric => exact absurd hkind (numeric_kind_ne _ rfl)
  | named _ hnamed => exact absurd hkind (named_kind_ne hnamed rfl)
  | _ => cases hkind

/-- A string is read whatever follows it. -/
theorem read_string {text : List Char} {quoted : String}
    (h : read c (body ++ text) = .ok ⟨.string quoted, c :: body, text⟩) (target : List Char) :
    read c (body ++ target) = .ok ⟨.string quoted, c :: body, target⟩ := by
  rcases string_of_read h rfl with ⟨hquote, inner, after, hsplit, hlexeme⟩
  simp only [Lexeme.mk.injEq, TokenKind.string.injEq, List.cons.injEq, true_and] at hlexeme
  obtain ⟨rfl, rfl, rfl⟩ := hlexeme
  have hlong := splitString?_replace hsplit target
  simp only [isQuote, Bool.or_eq_true, beq_iff_eq] at hquote
  unfold read
  rcases hquote with rfl | rfl
  all_goals
    rw [if_neg (by decide), if_neg (by simp), if_pos (by decide), hlong]

/-- What is left of a text whose spaces have been dropped may be put behind other spaces. -/
theorem span_of_dropWhile {text core cut : List Char} (hcore : core ≠ [])
    (h : text.dropWhile isSpace = core ++ cut) (more : List Char) :
    (text.takeWhile isSpace ++ (core ++ more)).takeWhile isSpace = text.takeWhile isSpace ∧
      (text.takeWhile isSpace ++ (core ++ more)).dropWhile isSpace = core ++ more ∧
      startsQuotedAddress (text.takeWhile isSpace ++ (core ++ more)) =
        startsQuotedAddress text := by
  have hspaces : forall b, b ∈ text.takeWhile isSpace -> isSpace b = true :=
    fun b hb => List.mem_takeWhile_imp hb
  cases core with
  | nil => exact absurd rfl hcore
  | cons d core =>
      have hhead : isSpace d = false := by
        have hnot := List.head?_dropWhile_not isSpace text
        rw [h] at hnot
        simpa using hnot
      have hdrop : (d :: core ++ more).dropWhile isSpace = d :: core ++ more := by
        rw [List.cons_append, List.dropWhile_cons, hhead]
        rfl
      rw [startsQuotedAddress, startsQuotedAddress, List.dropWhile_append_of_pos hspaces, hdrop, h,
        List.takeWhile_append_of_pos hspaces, List.cons_append, List.takeWhile_cons, hhead]
      exact ⟨List.append_nil _, rfl, rfl⟩

/-- A whole address is read whatever follows it. -/
theorem read_whole_address {text : List Char} {content : String}
    (h : read c (body ++ text) = .ok ⟨.url content, c :: body, text⟩) (target : List Char) :
    read c (body ++ target) = .ok ⟨.url content, c :: body, target⟩ := by
  rcases named_of_read h rfl with ⟨hbranch, hnamed⟩
  generalize hlexeme : Lexeme.mk (.url content) (c :: body) text = lexeme at hnamed
  cases names_of_named hnamed with
  | ident => cases hlexeme
  | function => cases hlexeme
  | @url first arguments address hsplit hword hquoted haddress =>
      rw [Lexeme.mk.injEq, TokenKind.url.injEq] at hlexeme
      obtain ⟨rfl, hbody, rfl⟩ := hlexeme
      generalize hcore : address.content ++ address.spaces ++ [')'] = core
      have hdrop : arguments.dropWhile isSpace = core ++ address.rest := by
        rw [← splitAddress_append haddress, ← hcore, List.append_assoc _ [')']]
        rfl
      have hne : core ≠ [] := by
        rw [← hcore]
        exact List.append_ne_nil_of_right_ne_nil _ (List.cons_ne_nil _ _)
      rcases span_of_dropWhile hne hdrop target with ⟨htake', hdrop', hquoted'⟩
      have harguments : arguments = arguments.takeWhile isSpace ++ core ++ address.rest := by
        rw [List.append_assoc, ← hdrop, List.takeWhile_append_dropWhile]
      have haddress' := splitAddress_replace haddress target
      rw [List.append_cons, hcore] at haddress'
      generalize hspaces : arguments.takeWhile isSpace = spaces at *
      have hbody' : c :: body = first ++ '(' :: (spaces ++ core) := by
        rw [hbody, ← hcore]
        simp only [List.append_assoc, List.cons_append, List.nil_append]
      have hshort : Name.split (first ++ '(' :: (spaces ++ core)) =
          (first, '(' :: (spaces ++ core)) := by
        refine Name.split_of_append (c :: (body ++ address.rest)) address.rest ?_
        rw [hsplit, harguments]
        rfl
      have hlong := Name.split_append_right hshort (List.cons_ne_nil _ _) (by simp) target
      rw [List.cons_append, List.append_assoc spaces core target] at hlong
      rw [← hdrop'] at haddress'
      have hnames := Names.url hlong hword (hquoted'.trans hquoted) haddress'
      cases first with
      | nil =>
          obtain rfl := (List.cons.inj hbody').1
          cases hbranch
      | cons d front =>
          rw [List.cons_append] at hbody'
          obtain ⟨rfl, rfl⟩ := List.cons.inj hbody'
          have hbehind : forall more, front ++ '(' :: (spaces ++ core) ++ more =
              front ++ '(' :: (spaces ++ core ++ more) :=
            fun more => List.append_assoc front ('(' :: (spaces ++ core)) more
          rw [hbehind, ← harguments] at hbranch
          rw [read_eq_branch, hbehind, branch_paren arguments, hbranch, Branch.read]
          rw [htake', ← hbody] at hnames
          simpa only [List.cons_append, List.append_assoc] using named_of_names hnames

/-- Whitespace is read in front of what is no space. -/
theorem read_whitespace (h : forall b, b ∈ c :: body -> isSpace b = true)
    (htarget : forall b, b ∈ target.head? -> isSpace b = false) :
    read c (body ++ target) = .ok ⟨.whitespace, c :: body, target⟩ := by
  have hbody : forall b, b ∈ body -> isSpace b = true :=
    fun b hb => h b (List.mem_cons_of_mem c hb)
  rcases span_append_edge htarget body with ⟨htake, hdrop⟩
  rw [read, if_pos (h c List.mem_cons_self), htake, hdrop, List.takeWhile_eq_self_iff.mpr hbody,
    List.dropWhile_eq_nil_iff.mpr hbody, List.nil_append]

end Lexeme
end Stylesheet
