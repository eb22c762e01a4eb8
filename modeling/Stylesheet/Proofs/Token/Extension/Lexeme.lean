import Stylesheet.Proofs.Token.Extension.Numeral
import Stylesheet.Proofs.Token.Scan
import Stylesheet.Proofs.Token.Truncation.Lexeme

/-!
# Lexemes in front of another text

What is written behind a lexeme may be replaced by a text that no test tells from it, and the
lexeme stays the same.  Only where the lexeme itself is the last thing before the replaced text
its kind matters.
-/

namespace Stylesheet

open Character

/-- The name that a token of a kind ends with, if it ends with one. -/
def TokenKind.lastName? : TokenKind -> Option String
  | ident name => some name
  | hash name => some name
  | atKeyword name => some name
  | dimension _ unit => some unit
  | _ => none

/-- What has to hold of a token that a text is put directly behind, in place of another text. -/
structure Apart (kind : TokenKind) (text other : List Char) : Prop where
  space : kind = .whitespace -> forall b, b ∈ other.head? -> isSpace b = false
  slash : kind = .delim '/' -> other.head? ≠ some '*'
  backslash : kind = .delim '\\' -> text ≠ [] ∧ other ≠ []
  name : forall name, kind.lastName? = some name -> Name.Ends name.toList other

namespace Lexeme

variable {c : Char} {body keep text other : List Char} {kind : TokenKind}

/-! ## Tests that see no edge -/

theorem isPrefixOf_append_edge {more : List Char} (hmore : StartsEdge more) (front : List Char)
    (hfront : forall c, c ∈ front -> ¬ IsEdge c) (text : List Char) :
    front.isPrefixOf (text ++ more) = front.isPrefixOf text := by
  induction front generalizing text with
  | nil => rw [List.isPrefixOf_nil_left, List.isPrefixOf_nil_left]
  | cons c front ih =>
      cases text with
      | nil =>
          cases more with
          | nil => rfl
          | cons b more =>
              have hne : (c == b) = false := by
                apply beq_false_of_ne
                rintro rfl
                exact hfront c List.mem_cons_self (hmore c rfl)
              rw [List.nil_append, List.isPrefixOf_cons_cons, hne, Bool.false_and]
              rfl
      | cons d text =>
          rw [List.cons_append, List.isPrefixOf_cons_cons, List.isPrefixOf_cons_cons,
            ih fun c hc => hfront c (List.mem_cons_of_mem _ hc)]

theorem not_isEdge_of_mark {b : Char} (h : b ∈ ['!', '-', '>']) : ¬ IsEdge b := by
  intro hedge
  simp only [List.mem_cons, List.not_mem_nil, or_false] at h
  rcases h with rfl | rfl | rfl
  · exact hedge.mark (by decide)
  · exact absurd hedge.sign (by decide)
  · exact hedge.mark (by decide)

theorem startsRange_cons {c : Char} (hc : c ≠ '+') (rest : List Char) :
    startsRange (c :: rest) = false := by
  unfold startsRange
  split
  · rename_i heq
    cases heq
    exact absurd rfl hc
  · rfl

theorem startsRange_append_edge {more : List Char} (hmore : StartsEdge more) (text : List Char) :
    startsRange (text ++ more) = startsRange text := by
  cases text with
  | nil =>
      cases more with
      | nil => rfl
      | cons b more =>
          have hsign : b ≠ '+' := by
            rintro rfl
            exact absurd (hmore '+' rfl).sign (by decide)
          exact startsRange_cons hsign more
  | cons c rest =>
      by_cases hc : c = '+'
      · subst hc
        cases rest with
        | nil =>
            cases more with
            | nil => rfl
            | cons b more => exact (hmore b rfl).range
        | cons d rest => rfl
      · exact (startsRange_cons hc _).trans (startsRange_cons hc _).symm

theorem splitUpToSix_append_edge {p : Char -> Bool} {more : List Char}
    (hmore : forall b, b ∈ more.head? -> p b = false) (text : List Char) :
    splitUpToSix p (text ++ more) = ((splitUpToSix p text).1, (splitUpToSix p text).2 ++ more) := by
  simp only [splitUpToSix, takeWhile_take_append_edge hmore, drop_takeWhile_take_append]

theorem splitRangeEnd_append_edge {more : List Char} (hmore : StartsEdge more) (text : List Char) :
    splitRangeEnd (text ++ more) = ((splitRangeEnd text).1, (splitRangeEnd text).2 ++ more) := by
  have hcons : forall {c : Char} {rest : List Char}, c ≠ '-' ->
      splitRangeEnd (c :: rest) = ([], c :: rest) := by
    intro c rest hc
    rw [splitRangeEnd]
    intro d more heq
    cases heq
    exact hc rfl
  cases text with
  | nil =>
      cases more with
      | nil => rfl
      | cons b more => exact hcons (hmore b rfl).ne_hyphen
  | cons c rest =>
      by_cases hc : c = '-'
      · subst hc
        cases rest with
        | nil =>
            cases more with
            | nil => rfl
            | cons b more =>
                rw [List.cons_append, List.nil_append, splitRangeEnd, (hmore b rfl).not_isHexDigit]
                rfl
        | cons d rest =>
            have hdigits := splitUpToSix_append_edge (p := isHexDigit)
              (fun b hb => (hmore b hb).not_isHexDigit) (d :: rest)
            simp only [List.cons_append] at hdigits
            simp only [List.cons_append, splitRangeEnd, hdigits]
            split <;> rfl
      · rw [List.cons_append, hcons hc, hcons hc]
        rfl

theorem range_append_edge {more : List Char} (hmore : StartsEdge more) (letter : Char)
    (text : List Char) :
    range letter (text ++ more) =
      { range letter text with rest := (range letter text).rest ++ more } := by
  have hfirst := splitUpToSix_append_edge (fun b hb => (hmore b hb).range) text
  simp only [range, hfirst, splitRangeEnd_append_edge hmore]

/-! ## Lexemes that end with a name -/

theorem marked_of_resembles {mark : Char} {kindOf : String -> TokenKind}
    (h : marked mark kindOf (body ++ keep ++ text) = ⟨kind, mark :: body, keep ++ text⟩)
    (hresembles : Resembles text other) (hkeep : keep = ['\\'] -> text ≠ [])
    (hends : keep = [] -> kindOf (String.ofList body) = kind -> Name.Ends body other) :
    marked mark kindOf (body ++ keep ++ other) = ⟨kind, mark :: body, keep ++ other⟩ := by
  cases hname : Name.split (body ++ keep ++ text) with
  | mk name rest =>
      simp only [marked, hname, Lexeme.mk.injEq, List.cons.injEq, true_and] at h
      obtain ⟨hkind, rfl, rfl⟩ := h
      have hname' := Name.split_of_resembles hname hresembles hkeep fun hnil => hends hnil hkind
      simp only [marked, hname', hkind]

section Numeric

variable {value behind : List Char}

theorem numeric_dimension (hvalue : Numeral.split text = (value, behind))
    (hident : Name.startsIdent behind = true) {unit after : List Char}
    (hunit : Name.split behind = (unit, after)) :
    numeric text =
      ⟨.dimension (String.ofList value) (String.ofList unit), value ++ unit, after⟩ := by
  simp only [numeric, hvalue, hident, hunit, if_true]

theorem numeric_percentage (hvalue : Numeral.split text = (value, '%' :: behind)) :
    numeric text = ⟨.percentage (String.ofList value), value ++ ['%'], behind⟩ := by
  have hident : Name.startsIdent ('%' :: behind) = false := by
    rw [Name.startsIdent_cons (by decide), Name.startsEscape_cons (by decide)]
    rfl
  simp only [numeric, hvalue, hident, Bool.false_eq_true, if_false]

theorem numeric_number (hvalue : Numeral.split text = (value, behind))
    (hident : Name.startsIdent behind = false) (hpercent : behind.head? ≠ some '%') :
    numeric text = ⟨.number (String.ofList value), value, behind⟩ := by
  simp only [numeric, hvalue, hident, Bool.false_eq_true, if_false]
  split
  · exact absurd rfl hpercent
  · rfl

theorem head?_ne_percent {more : List Char} (h : StartsEdge more) : more.head? ≠ some '%' := by
  intro hhead
  exact (h '%' hhead).mark (by decide)

theorem numeric_of_resembles {front : List Char}
    (h : numeric (front ++ keep ++ text) = ⟨kind, front, keep ++ text⟩)
    (hresembles : Resembles text other)
    (hkeep : keep = ['\\'] ∨ keep = ['-', '\\'] -> text ≠ [] ∧ other ≠ [])
    (hends : keep = [] -> forall name, kind.lastName? = some name ->
      Name.Ends name.toList other) :
    numeric (front ++ keep ++ other) = ⟨kind, front, keep ++ other⟩ := by
  have hshort : numeric (front ++ keep) = ⟨kind, front, keep⟩ := by
    have hrest : (numeric (front ++ keep ++ text)).rest = keep ++ text := by rw [h]
    have hcut := numeric_of_append hrest
    rw [h] at hcut
    exact hcut
  cases hvalue : Numeral.split (front ++ keep) with
  | mk value behind =>
      have hdangles : behind = ['\\'] ∨ behind = ['-', '\\'] -> text ≠ [] ∧ other ≠ [] := by
        intro hbehind
        have hident : Name.startsIdent behind = false := by
          rcases hbehind with rfl | rfl <;> decide
        have hpercent : behind.head? ≠ some '%' := by
          rcases hbehind with rfl | rfl <;> decide
        rw [numeric_number hvalue hident hpercent, Lexeme.mk.injEq] at hshort
        exact hkeep (hshort.2.2 ▸ hbehind)
      have hleft := Numeral.split_append_edge hresembles.left (front ++ keep)
      have hright := Numeral.split_append_edge hresembles.right (front ++ keep)
      have hident := Name.startsIdent_of_resembles hresembles hdangles
      rw [hvalue] at hleft hright
      cases hstarts : Name.startsIdent (behind ++ text) with
      | true =>
          cases hunit : Name.split (behind ++ text) with
          | mk unit after =>
              have hbehind := Name.split_append (behind ++ text)
              rw [hunit] at hbehind
              rw [numeric_dimension hleft hstarts hunit, Lexeme.mk.injEq] at h
              obtain ⟨rfl, rfl, rfl⟩ := h
              simp only [← List.append_assoc, List.append_left_inj] at hbehind
              subst hbehind
              have hunit' := Name.split_of_resembles hunit hresembles
                (fun hback => (hkeep (Or.inl hback)).1) fun hnil =>
                  String.toList_ofList (l := unit) ▸ hends hnil _ rfl
              exact numeric_dimension hright (hident ▸ hstarts) hunit'
      | false =>
          cases behind with
          | nil =>
              rw [numeric_number hleft hstarts (head?_ne_percent hresembles.left), Lexeme.mk.injEq,
                List.append_left_inj] at h
              obtain ⟨rfl, rfl, rfl⟩ := h
              exact numeric_number hright (hident ▸ hstarts) (head?_ne_percent hresembles.right)
          | cons d behind =>
              by_cases hd : d = '%'
              · subst hd
                have hleft' : Numeral.split (front ++ keep ++ text) =
                    (value, '%' :: (behind ++ text)) := hleft
                rw [numeric_percentage hleft', Lexeme.mk.injEq, List.append_left_inj] at h
                obtain ⟨rfl, rfl, rfl⟩ := h
                exact numeric_percentage hright
              · have hpercent : some d ≠ some '%' := fun heq => hd (Option.some.inj heq)
                rw [numeric_number hleft hstarts hpercent, Lexeme.mk.injEq,
                  List.append_left_inj] at h
                obtain ⟨rfl, rfl, rfl⟩ := h
                exact numeric_number hright (hident ▸ hstarts) hpercent

end Numeric

/-- A name that is no opening ends where no parenthesis follows. -/
theorem named_of_resembles {name : String}
    (h : named (body ++ keep ++ text) = .ok ⟨.ident name, body, keep ++ text⟩)
    (hresembles : Resembles text other) (hkeep : keep = ['\\'] -> text ≠ [])
    (hends : keep = [] -> Name.Ends name.toList other) :
    named (body ++ keep ++ other) = .ok ⟨.ident name, body, keep ++ other⟩ := by
  cases names_of_named h with
  | ident hsplit hparen =>
      rw [String.toList_ofList] at hends
      refine named_of_names (.ident (Name.split_of_resembles hsplit hresembles hkeep hends) ?_)
      intro hother
      cases keep with
      | nil => exact hparen (hresembles.paren hother)
      | cons d keep => exact hparen hother

/-! ## The choice -/

theorem isPrefixOf_singleton {mark : Char} {more : List Char} (h : more.head? ≠ some mark) :
    [mark].isPrefixOf more = false := by
  cases more with
  | nil => rfl
  | cons b more =>
      have hb : mark ≠ b := fun heq => h (congrArg some heq.symm)
      rw [List.isPrefixOf_cons_cons, beq_false_of_ne hb, Bool.false_and]

/-- The choice is the same in front of two texts that no test tells apart. -/
theorem branch_of_resembles {front : List Char} (h : Resembles text other)
    (hslash : c = '/' -> front = [] -> text.head? ≠ some '*' ∧ other.head? ≠ some '*')
    (hmarked : c = '#' ∨ c = '@' -> front = ['\\'] ∨ front = ['-', '\\'] ->
      text ≠ [] ∧ other ≠ [])
    (hnamed : c :: front = ['\\'] ∨ c :: front = ['-', '\\'] -> text ≠ [] ∧ other ≠ []) :
    branch c (front ++ other) = branch c (front ++ text) := by
  have hmark : forall sign : List Char, sign ⊆ ['!', '-', '>'] ->
      sign.isPrefixOf (front ++ other) = sign.isPrefixOf (front ++ text) := by
    intro sign hsign
    have hedge : forall b, b ∈ sign -> ¬ IsEdge b := fun b hb => not_isEdge_of_mark (hsign hb)
    rw [isPrefixOf_append_edge h.left sign hedge, isPrefixOf_append_edge h.right sign hedge]
  refine branch_congr fun choice => ?_
  cases choice with
  | whitespace | string | punctuation | delim => rfl
  | comment =>
      rw [Branch.test, Branch.test]
      by_cases hc : c = '/'
      · cases front with
        | cons d front => rfl
        | nil =>
            rcases hslash hc rfl with ⟨htext, hother⟩
            rw [List.nil_append, List.nil_append, isPrefixOf_singleton htext,
              isPrefixOf_singleton hother]
      · rw [beq_false_of_ne hc, Bool.false_and, Bool.false_and]
  | hash =>
      rw [Branch.test, Branch.test]
      by_cases hc : c = '#'
      · rw [Name.splitUnit?_isSome_of_resembles h fun hfront => hmarked (Or.inl hc) (Or.inl hfront)]
      · rw [beq_false_of_ne hc, Bool.false_and, Bool.false_and]
  | cdo => rw [Branch.test, Branch.test, hmark ['!', '-', '-'] (by decide)]
  | numeric =>
      have hleft := Numeral.starts_append_edge h.left (c :: front)
      exact (Numeral.starts_append_edge h.right (c :: front)).trans hleft.symm
  | cdc => rw [Branch.test, Branch.test, hmark ['-', '>'] (by decide)]
  | atKeyword =>
      rw [Branch.test, Branch.test]
      by_cases hc : c = '@'
      · rw [Name.startsIdent_of_resembles h (hmarked (Or.inr hc))]
      · rw [beq_false_of_ne hc, Bool.false_and, Bool.false_and]
  | range =>
      rw [Branch.test, Branch.test, startsRange_append_edge h.left, startsRange_append_edge h.right]
  | named => exact (Name.startsIdent_of_resembles h hnamed).symm

/-! ## Lexemes in front of another text -/

/-- A lexeme in front of one text, with what has to be known to put another text there. -/
structure Portable (c : Char) (body keep text other : List Char) (kind : TokenKind) : Prop where
  read : read c (body ++ keep ++ text) = .ok ⟨kind, c :: body, keep ++ text⟩
  resembles : Resembles text other
  backslash : keep = ['\\'] ∨ keep = ['-', '\\'] -> text ≠ [] ∧ other ≠ []
  apart : keep = [] -> Apart kind text other
  function : forall name, kind ≠ .function name
  address : forall content, kind ≠ .url content

namespace Portable

theorem read_short (h : Portable c body keep text other kind) :
    Lexeme.read c (body ++ keep) = .ok ⟨kind, c :: body, keep⟩ := by
  have hopens : Opens kind keep := fun name hkind => absurd hkind (h.function name)
  rcases read_of_append h.read rfl hopens with ⟨body', hbody, hread⟩
  cases hbody
  exact hread

/-- What a lexeme is at the end of all text, where that can be computed. -/
theorem eq_of_read {front : List Char} {lexeme : Lexeme}
    (h : Portable c body keep text other kind) (hfront : body ++ keep = front)
    (hread : Lexeme.read c front = .ok lexeme) : lexeme = ⟨kind, c :: body, keep⟩ := by
  have hshort := h.read_short
  rw [hfront, hread] at hshort
  exact Except.ok.inj hshort

theorem branch_eq (h : Portable c body keep text other kind) :
    branch c (body ++ keep ++ other) = branch c (body ++ keep ++ text) := by
  apply branch_of_resembles h.resembles
  · rintro rfl hfront
    have hlexeme := h.eq_of_read hfront
      (show Lexeme.read '/' [] = .ok ⟨.delim '/', ['/'], []⟩ by decide)
    have hkind : kind = .delim '/' := (congrArg Lexeme.kind hlexeme).symm
    rcases List.append_eq_nil_iff.mp hfront with ⟨_, hkeep⟩
    refine ⟨?_, (h.apart hkeep).slash hkind⟩
    intro hstar
    rcases List.head?_eq_some_iff.mp hstar with ⟨more, rfl⟩
    have hread := h.read
    rw [hfront, hkind, Lexeme.read, if_neg (by decide), if_pos (by rfl)] at hread
    split at hread <;> cases hread
  -- A lexeme stops in front of a backslash that nothing follows, so the backslash is kept.
  · rintro (rfl | rfl) (hfront | hfront)
    · have hlexeme := h.eq_of_read hfront
        (show Lexeme.read '#' ['\\'] = .ok ⟨.delim '#', ['#'], ['\\']⟩ by decide)
      exact h.backslash (Or.inl (congrArg Lexeme.rest hlexeme).symm)
    · have hlexeme := h.eq_of_read hfront
        (show Lexeme.read '#' ['-', '\\'] = .ok ⟨.hash "-", ['#', '-'], ['\\']⟩ by decide +kernel)
      exact h.backslash (Or.inl (congrArg Lexeme.rest hlexeme).symm)
    · have hlexeme := h.eq_of_read hfront
        (show Lexeme.read '@' ['\\'] = .ok ⟨.delim '@', ['@'], ['\\']⟩ by decide)
      exact h.backslash (Or.inl (congrArg Lexeme.rest hlexeme).symm)
    · have hlexeme := h.eq_of_read hfront
        (show Lexeme.read '@' ['-', '\\'] = .ok ⟨.delim '@', ['@'], ['-', '\\']⟩ by decide)
      exact h.backslash (Or.inr (congrArg Lexeme.rest hlexeme).symm)
  · rintro (hfront | hfront)
    · obtain ⟨rfl, hrest⟩ := List.cons.inj hfront
      have hlexeme := h.eq_of_read hrest
        (show Lexeme.read '\\' [] = .ok ⟨.delim '\\', ['\\'], []⟩ by decide)
      have hkeep : keep = [] := (List.append_eq_nil_iff.mp hrest).2
      exact (h.apart hkeep).backslash (congrArg Lexeme.kind hlexeme).symm
    · obtain ⟨rfl, hrest⟩ := List.cons.inj hfront
      have hlexeme := h.eq_of_read hrest
        (show Lexeme.read '-' ['\\'] = .ok ⟨.delim '-', ['-'], ['\\']⟩ by decide)
      exact h.backslash (Or.inl (congrArg Lexeme.rest hlexeme).symm)

theorem ends (h : Portable c body keep text other kind) (hkeep : keep = [])
    {name : List Char} (hname : kind.lastName? = some (String.ofList name)) :
    Name.Ends name other := by
  have hends := (h.apart hkeep).name _ hname
  rwa [String.toList_ofList] at hends

theorem span_isSpace (h : Portable c body keep text other kind) (hkind : kind = .whitespace)
    (htake : (body ++ keep).takeWhile isSpace = body)
    (hdrop : (body ++ keep).dropWhile isSpace = keep) :
    (body ++ keep ++ other).takeWhile isSpace = body ∧
      (body ++ keep ++ other).dropWhile isSpace = keep ++ other := by
  have hhead : forall b, b ∈ (keep ++ other).head? -> isSpace b = false := by
    intro b hb
    cases keep with
    | nil => exact (h.apart rfl).space hkind b hb
    | cons d keep =>
        obtain rfl := Option.some.inj hb
        have hnot := List.head?_dropWhile_not isSpace (body ++ d :: keep)
        rw [hdrop] at hnot
        simpa using hnot
  have hbody : forall b, b ∈ body -> isSpace b = true := by
    intro b hb
    rw [← htake] at hb
    exact List.mem_takeWhile_imp hb
  rcases span_append_edge hhead body with ⟨htake', hdrop'⟩
  rw [List.append_assoc, htake', hdrop', List.takeWhile_eq_self_iff.mpr hbody,
    List.dropWhile_eq_nil_iff.mpr hbody, List.nil_append]
  exact ⟨rfl, rfl⟩

theorem range (h : Portable c body keep text other kind)
    (hrange : Lexeme.range c ((body ++ keep ++ text).drop 1) = ⟨kind, c :: body, keep ++ text⟩) :
    Lexeme.range c ((body ++ keep ++ other).drop 1) = ⟨kind, c :: body, keep ++ other⟩ := by
  cases hfront : body ++ keep with
  | nil =>
      obtain rfl := (List.append_eq_nil_iff.mp hfront).1
      have hplus := congrArg Lexeme.text hrange
      simp only [Lexeme.range, List.cons_append, List.cons.injEq, reduceCtorEq, and_false] at hplus
  | cons d front =>
      rw [hfront, List.cons_append, List.drop_one, List.tail_cons,
        range_append_edge h.resembles.left] at hrange
      rw [List.cons_append, List.drop_one, List.tail_cons, range_append_edge h.resembles.right]
      simp only [Lexeme.mk.injEq, List.append_left_inj] at hrange
      simp only [hrange]

theorem named (h : Portable c body keep text other kind)
    (hnamed : Lexeme.named (c :: body ++ keep ++ text) = .ok ⟨kind, c :: body, keep ++ text⟩) :
    Lexeme.named (c :: body ++ keep ++ other) = .ok ⟨kind, c :: body, keep ++ other⟩ := by
  have hkeep : keep = ['\\'] -> text ≠ [] := fun heq => (h.backslash (Or.inl heq)).1
  cases hkind : kind with
  | ident name =>
      rw [hkind] at hnamed
      apply named_of_resembles hnamed h.resembles hkeep
      intro hnil
      exact (h.apart hnil).name name (hkind ▸ rfl)
  | function name => exact absurd hkind (h.function name)
  | url content => exact absurd hkind (h.address content)
  | _ =>
      have hnot := isNamed_of_named hnamed
      rw [hkind] at hnot
      cases hnot

/-- A lexeme is read in front of the other text. -/
theorem read_other (h : Portable c body keep text other kind) :
    Lexeme.read c (body ++ keep ++ other) = .ok ⟨kind, c :: body, keep ++ other⟩ := by
  have hkeep : keep = ['\\'] -> text ≠ [] := fun heq => (h.backslash (Or.inl heq)).1
  have hread := h.read
  rw [read_eq_branch] at hread
  rw [read_eq_branch, h.branch_eq]
  cases hbranch : branch c (body ++ keep ++ text) with
  | whitespace =>
      rw [hbranch] at hread
      simp only [Branch.read, Except.ok.injEq, Lexeme.mk.injEq, List.cons.injEq, true_and] at hread
      rcases hread with ⟨hkind, htake, hdrop⟩
      rcases takeWhile_of_dropWhile_append htake hdrop with ⟨htake', hdrop'⟩
      rcases h.span_isSpace hkind.symm htake' hdrop' with ⟨hbody, hrest⟩
      rw [Branch.read, hbody, hrest, hkind]
  | comment =>
      rw [hbranch, Branch.read] at hread
      split at hread
      · rename_i content after hsplit
        simp only [Except.ok.injEq, Lexeme.mk.injEq, List.cons_append, List.cons.injEq] at hread
        obtain ⟨rfl, ⟨rfl, rfl⟩, rfl⟩ := hread
        have hlong : ('*' :: (content ++ ['*', '/']) ++ keep ++ other).drop 1 =
            content ++ '*' :: '/' :: (keep ++ other) := by
          simp only [List.cons_append, List.append_assoc, List.nil_append, List.drop_one,
            List.tail_cons]
        rw [Branch.read, hlong, splitComment?_replace hsplit]
        rfl
      · cases hread
  | string =>
      rw [hbranch, Branch.read] at hread
      rw [Branch.read]
      split at hread
      · rename_i inner after hsplit
        simp only [Except.ok.injEq, Lexeme.mk.injEq, List.cons.injEq, true_and] at hread
        obtain ⟨rfl, rfl, rfl⟩ := hread
        rw [List.append_assoc, splitString?_replace hsplit]
      · cases hread
  | hash | atKeyword =>
      rw [hbranch] at hread
      refine congrArg Except.ok (marked_of_resembles (Except.ok.inj hread) h.resembles hkeep ?_)
      intro hnil hkind
      exact h.ends hnil (hkind ▸ rfl)
  | punctuation kind' | delim =>
      rw [hbranch] at hread
      simp only [Branch.read, Except.ok.injEq, Lexeme.mk.injEq, List.cons.injEq, true_and] at hread
      obtain ⟨rfl, rfl, _⟩ := hread
      rfl
  | cdo | cdc =>
      rw [hbranch] at hread
      simp only [Branch.read, Except.ok.injEq, Lexeme.mk.injEq, List.cons.injEq] at hread
      obtain ⟨rfl, ⟨rfl, rfl⟩, _⟩ := hread
      rfl
  | numeric =>
      rw [hbranch] at hread
      have hnumeric : Lexeme.numeric (c :: body ++ keep ++ text) =
          ⟨kind, c :: body, keep ++ text⟩ := Except.ok.inj hread
      have hagain := numeric_of_resembles hnumeric h.resembles h.backslash fun hnil =>
        (h.apart hnil).name
      exact congrArg Except.ok hagain
  | range =>
      rw [hbranch] at hread
      exact congrArg Except.ok (h.range (Except.ok.inj hread))
  | named =>
      rw [hbranch] at hread
      exact h.named hread

end Portable

end Lexeme
end Stylesheet
