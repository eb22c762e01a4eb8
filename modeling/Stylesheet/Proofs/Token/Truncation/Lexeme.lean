import Stylesheet.Proofs.Token.Branch
import Stylesheet.Proofs.Token.Named
import Stylesheet.Proofs.Token.Truncation.Numeral
import Stylesheet.Token.Stream

/-!
# Lexemes in a shorter text

A lexeme depends on what follows it only as far as it is kept: a text that is cut off anywhere
behind a lexeme begins with the same lexeme.  The opening of a function called `url` is the one
exception, since only the quote behind it tells it from an address.
-/

namespace Stylesheet

namespace Lexeme

open Character

variable {text front keep cut : List Char} {lexeme : Lexeme}

/-- A string ends with its quote, whatever follows. -/
theorem splitString?_replace {quote : Char} {back : List Char}
    (h : splitString? quote text = some (front, back)) (keep : List Char) :
    splitString? quote (front ++ keep) = some (front, keep) := by
  fun_induction splitString? quote text generalizing front with
  | case1 => cases h
  | case2 c rest ih =>
      rcases Option.map_eq_some_iff.mp h with ⟨⟨inner, tail⟩, hinner, heq⟩
      cases heq
      simp [splitString?, ih hinner]
  | case3 => cases h
  | case4 c rest hc hopen hquote =>
      cases h
      rw [List.cons_append, List.nil_append, splitString?]
      · rw [if_neg hopen, if_pos hquote]
      · rintro d more rfl
        simp at hopen
  | case5 c rest hc hopen hquote ih =>
      rcases Option.map_eq_some_iff.mp h with ⟨⟨inner, tail⟩, hinner, heq⟩
      cases heq
      rw [List.cons_append, splitString?]
      · rw [if_neg hopen, if_neg hquote, ih hinner]
        rfl
      · rintro d more rfl
        simp at hopen

theorem splitComment?_replace {back : List Char} (h : splitComment? text = some (front, back))
    (keep : List Char) : splitComment? (front ++ '*' :: '/' :: keep) = some (front, keep) := by
  fun_induction splitComment? text generalizing front with
  | case1 => cases h
  | case2 rest =>
      cases h
      simp [splitComment?]
  | case3 c rest hend ih =>
      rcases Option.map_eq_some_iff.mp h with ⟨⟨inner, tail⟩, hinner, heq⟩
      cases heq
      have happend := splitComment?_append hinner
      rw [List.cons_append, splitComment?, ih hinner]
      · rfl
      · rintro more rfl heq
        cases inner with
        | nil => cases heq
        | cons d inner =>
            cases heq
            exact hend _ rfl happend.symm

theorem splitAddress_cons_append {address : Address} {c : Char} {rest : List Char}
    (h : splitAddress (c :: rest) = .ok address) (more : List Char) :
    exists tail, address.content ++ address.spaces ++ ')' :: more = c :: tail := by
  have happend := splitAddress_append h
  cases hfront : address.content ++ address.spaces with
  | nil =>
      rw [hfront] at happend
      cases happend
      exact ⟨more, rfl⟩
  | cons d front =>
      rw [hfront] at happend
      cases happend
      exact ⟨front ++ ')' :: more, rfl⟩

/-- An address ends with its parenthesis, whatever follows. -/
theorem splitAddress_replace {address : Address} (h : splitAddress text = .ok address)
    (keep : List Char) :
    splitAddress (address.content ++ address.spaces ++ ')' :: keep) =
      .ok { address with rest := keep } := by
  fun_induction splitAddress text generalizing address with
  | case1 => cases h
  | case2 d rest hd ih =>
      rcases extend_eq_ok h with ⟨inner, hinner, rfl⟩
      rcases splitAddress_cons_append hinner keep with ⟨tail, htail⟩
      have hagain := ih hinner
      rw [htail] at hagain
      simp only [List.cons_append, List.nil_append, htail]
      rw [splitAddress, if_pos hd, hagain]
      rfl
  | case3 d rest hd ih =>
      rcases extend_eq_ok h with ⟨inner, hinner, rfl⟩
      simp only [List.cons_append, List.nil_append]
      rw [splitAddress, if_neg hd, ih hinner]
      rfl
  | case4 c rest hescape hc =>
      cases h
      simp [splitAddress]
  | case5 c rest hescape hc hspace after heq =>
      cases h
      have hall : forall d, d ∈ rest.takeWhile isSpace -> isSpace d = true :=
        fun d hd => List.mem_takeWhile_imp hd
      have hclose : isSpace ')' = false := by decide
      rw [List.nil_append, List.cons_append, splitAddress]
      · simp only [hc, hspace, if_true, List.dropWhile_append_of_pos hall,
          List.takeWhile_append_of_pos hall, List.dropWhile_cons, List.takeWhile_cons, hclose,
          Bool.false_eq_true, if_false, List.append_nil]
      · rintro d more rfl
        exact absurd hspace (by decide)
  | case6 => cases h
  | case7 c rest hescape hc hspace ih =>
      rcases extend_eq_ok h with ⟨inner, hinner, rfl⟩
      simp only [List.cons_append, List.nil_append]
      rw [splitAddress]
      · rw [if_neg hc, if_neg hspace, ih hinner]
        rfl
      · rintro d more rfl
        cases rest with
        | nil => cases hinner
        | cons e rest => exact absurd rfl (hescape e rest rfl)

theorem splitUpToSix_of_append {p : Char -> Bool} (text cut : List Char)
    (h : splitUpToSix p text = (front, keep ++ cut)) :
    splitUpToSix p (front ++ keep) = (front, keep) := by
  rcases Prod.mk.inj h with ⟨hfront, hrest⟩
  rw [hfront] at hrest
  simp only [splitUpToSix, takeWhile_take_of_drop_append hfront hrest, List.drop_left]

theorem splitRangeEnd_nil (h : splitRangeEnd (keep ++ cut) = ([], keep ++ cut)) :
    splitRangeEnd keep = ([], keep) := by
  cases hkeep : splitRangeEnd keep with
  | mk last rest =>
      unfold splitRangeEnd at hkeep
      split at hkeep
      · rename_i d more
        split at hkeep
        · rename_i hd
          rw [List.cons_append, List.cons_append, splitRangeEnd, if_pos hd] at h
          cases h
        · exact hkeep.symm
      · exact hkeep.symm

theorem splitRangeEnd_of_append (h : splitRangeEnd text = (front, keep ++ cut)) :
    splitRangeEnd (front ++ keep) = (front, keep) := by
  have happend := splitRangeEnd_append text
  rw [h] at happend
  cases hfront : front with
  | nil =>
      rw [hfront, List.nil_append] at happend
      rw [← happend, hfront] at h
      exact splitRangeEnd_nil h
  | cons c digits =>
      unfold splitRangeEnd at h
      split at h
      · rename_i d more
        split at h
        · rename_i hd
          cases hdigits : splitUpToSix isHexDigit (d :: more) with
          | mk digits' after =>
              rw [hdigits, hfront] at h
              cases h
              have hdigits' := splitUpToSix_of_append _ _ hdigits
              rcases Prod.mk.inj hdigits with ⟨hd', _⟩
              rw [List.take_succ_cons, List.takeWhile_cons, if_pos hd] at hd'
              rw [← hd'] at hdigits' ⊢
              rw [List.cons_append] at hdigits'
              rw [List.cons_append, List.cons_append, splitRangeEnd, if_pos hd, hdigits']
        · rw [hfront] at h
          cases h
      · rw [hfront] at h
        cases h

theorem range_of_append {letter : Char} (hrest : (range letter text).rest = keep ++ cut) :
    exists body, (range letter text).text = letter :: '+' :: body ∧
      (splitUpToSix isRangeDigit text).1 <+: body ∧
      range letter (body ++ keep) = { range letter text with rest := keep } := by
  cases hfirst : splitUpToSix isRangeDigit text with
  | mk first more =>
  cases hlast : splitRangeEnd more with
  | mk last rest =>
      simp only [range, hfirst, hlast] at hrest ⊢
      subst hrest
      have hmore := splitRangeEnd_append more
      rw [hlast] at hmore
      have hfirst' : splitUpToSix isRangeDigit (first ++ (last ++ keep)) = (first, last ++ keep) := by
        refine splitUpToSix_of_append text cut ?_
        rw [hfirst, ← hmore, List.append_assoc]
      refine ⟨first ++ last, rfl, List.prefix_append first last, ?_⟩
      simp only [List.append_assoc, hfirst', splitRangeEnd_of_append hlast]

theorem numeric_of_append (hrest : (numeric text).rest = keep ++ cut) :
    numeric ((numeric text).text ++ keep) = { numeric text with rest := keep } := by
  cases hvalue : Numeral.split text with
  | mk value behind =>
      have hvalue' : forall front keep : List Char, behind = front ++ (keep ++ cut) ->
          Numeral.split (value ++ (front ++ keep)) = (value, front ++ keep) := by
        rintro front keep rfl
        refine Numeral.split_of_append text cut ?_
        rw [hvalue, List.append_assoc]
      have hnone : forall {keep : List Char}, behind = keep ++ cut ->
          ¬ Name.startsIdent behind = true -> ¬ Name.startsIdent keep = true := by
        rintro keep rfl hbehind hkeep
        exact hbehind (Name.startsIdent_append hkeep _)
      simp only [numeric, hvalue] at hrest ⊢
      split
      · rename_i hident
        cases hunit : Name.split behind with
        | mk unit after =>
            rw [if_pos hident] at hrest
            simp only [hunit] at hrest
            subst hrest
            have hbehind := Name.split_append behind
            have hunit' := Name.split_of_append _ _ hunit
            have hident' := Name.startsIdent_split hident
            rw [hunit] at hbehind hident'
            simp only [List.append_assoc, hvalue' _ _ hbehind.symm, hunit',
              Name.startsIdent_append hident' _, if_true]
      · rename_i hident
        rw [if_neg hident] at hrest
        split
        · rename_i after
          subst hrest
          have hident' : ¬ Name.startsIdent ('%' :: keep) = true := hnone rfl hident
          have hvalue'' : Numeral.split (value ++ '%' :: keep) = (value, '%' :: keep) :=
            hvalue' ['%'] keep rfl
          simp only [List.append_assoc, List.cons_append, List.nil_append, hvalue'', hident']
          rfl
        · rename_i hpercent
          split at hrest
          · rename_i after
            exact False.elim (hpercent after rfl)
          · have hrest' : behind = keep ++ cut := hrest
            have hvalue'' := hvalue' [] keep hrest'
            rw [List.nil_append] at hvalue''
            simp only [hvalue'', if_neg (hnone hrest' hident)]
            split
            · rename_i after
              exact False.elim (hpercent (after ++ cut) hrest')
            · rfl

theorem marked_of_append {mark : Char} {kind : String -> TokenKind}
    (hrest : (marked mark kind text).rest = keep ++ cut) :
    marked mark kind ((Name.split text).1 ++ keep) = { marked mark kind text with rest := keep } ∧
      Name.split ((Name.split text).1 ++ keep) = ((Name.split text).1, keep) := by
  cases hname : Name.split text with
  | mk name after =>
      simp only [marked, hname] at hrest ⊢
      subst hrest
      rw [Name.split_of_append _ _ hname]
      exact ⟨rfl, rfl⟩

theorem startsQuotedAddress_append (h : startsQuotedAddress keep = true) (cut : List Char) :
    startsQuotedAddress (keep ++ cut) = true := by
  unfold startsQuotedAddress at h ⊢
  split at h
  · rename_i c rest heq
    rw [List.dropWhile_append, heq]
    exact h
  · cases h

/-- What has to stand behind the opening of a function that is called like an address. -/
def Opens (kind : TokenKind) (text : List Char) : Prop :=
  forall name, kind = .function name -> sameWord name "url" = true ->
    startsQuotedAddress text = true

theorem named_of_append (h : named text = .ok lexeme) (hrest : lexeme.rest = keep ++ cut)
    (hopens : Opens lexeme.kind keep) :
    named (lexeme.text ++ keep) = .ok { lexeme with rest := keep } := by
  have hshort : forall {name front keep : List Char},
      Name.split text = (name, front ++ (keep ++ cut)) ->
        Name.split (name ++ (front ++ keep)) = (name, front ++ keep) := by
    intro name front keep hsplit
    refine Name.split_of_append text cut ?_
    rw [hsplit, List.append_assoc]
  cases names_of_named h with
  | @ident name rest hsplit hparen =>
      subst hrest
      refine named_of_names (.ident (@hshort name [] keep hsplit) fun hhead => hparen ?_)
      rw [List.head?_append, hhead]
      rfl
  | @function name arguments hsplit hquoted =>
      subst hrest
      have hsplit' : Name.split (name ++ ['('] ++ keep) = (name, '(' :: keep) := by
        rw [List.append_assoc]
        exact @hshort name ['('] keep hsplit
      exact named_of_names (.function hsplit' (hopens _ rfl))
  | @url name arguments address hsplit hword hquoted haddress =>
      change address.rest = keep ++ cut at hrest
      have haddress' := splitAddress_replace haddress keep
      have happend := splitAddress_append haddress
      generalize hbody : address.content ++ address.spaces ++ ')' :: keep = body at haddress'
      have hdrop : arguments.dropWhile isSpace = body ++ cut := by
        rw [← happend, hrest, ← hbody]
        simp only [List.append_assoc, List.cons_append]
      rcases takeWhile_of_dropWhile_append rfl hdrop with ⟨htake', hdrop'⟩
      have harguments := List.takeWhile_append_dropWhile (p := isSpace) (l := arguments)
      rw [hdrop] at harguments
      generalize arguments.takeWhile isSpace = spaces at *
      have hsplit' : Name.split (name ++ '(' :: (spaces ++ body)) =
          (name, '(' :: (spaces ++ body)) := by
        refine @hshort name ['('] (spaces ++ body) ?_
        rw [hsplit, ← harguments, List.append_assoc]
        rfl
      have hquoted' : startsQuotedAddress (spaces ++ body) = false := by
        rw [← Bool.not_eq_true]
        intro hquoted'
        have hlong := startsQuotedAddress_append hquoted' cut
        rw [List.append_assoc, harguments, hquoted] at hlong
        cases hlong
      have htext : name ++ ['('] ++ spaces ++ address.content ++ address.spaces ++ [')'] ++ keep =
          name ++ '(' :: (spaces ++ body) := by
        rw [← hbody]
        simp only [List.append_assoc, List.cons_append, List.nil_append]
      rw [← hdrop'] at haddress'
      have hnames := Names.url hsplit' hword hquoted' haddress'
      rw [htake'] at hnames
      rw [htext]
      exact named_of_names hnames

theorem numeric_text (text : List Char) :
    exists more, (numeric text).text = (Numeral.split text).1 ++ more := by
  simp only [numeric]
  split
  · exact ⟨_, rfl⟩
  · split
    · exact ⟨_, rfl⟩
    · exact ⟨[], (List.append_nil _).symm⟩

theorem named_text (h : named text = .ok lexeme) :
    exists more, lexeme.text = (Name.split text).1 ++ more := by
  cases names_of_named h with
  | ident hsplit =>
      rw [hsplit]
      exact ⟨[], (List.append_nil _).symm⟩
  | function hsplit =>
      rw [hsplit]
      exact ⟨_, rfl⟩
  | url hsplit =>
      rw [hsplit]
      exact ⟨_, by simp only [List.append_assoc]; rfl⟩

theorem startsRange_append (h : startsRange keep = true) (cut : List Char) :
    startsRange (keep ++ cut) = true := by
  unfold startsRange at h
  split at h
  · exact h
  · cases h

/-- The first digits of a range are enough to see that it is one. -/
theorem startsRange_of_front {body : List Char} (h : startsRange text = true)
    (hfirst : (splitUpToSix isRangeDigit (text.drop 1)).1 <+: body) :
    startsRange ('+' :: body) = true := by
  unfold startsRange at h
  split at h
  · rename_i c rest
    rcases hfirst with ⟨more, rfl⟩
    simp only [splitUpToSix, List.drop_one, List.tail_cons, List.take_succ_cons,
      List.takeWhile_cons, h, if_true]
    exact h
  · cases h

theorem isPrefixOf_append {mark : List Char} (h : mark.isPrefixOf keep = true) (cut : List Char) :
    mark.isPrefixOf (keep ++ cut) = true := by
  rw [List.isPrefixOf_iff_prefix] at h ⊢
  exact h.trans (List.prefix_append keep cut)

/-- A test that passes on a text passes on a longer one. -/
theorem Branch.test_append {c : Char} {choice : Branch} (h : choice.test c keep = true)
    (cut : List Char) : choice.test c (keep ++ cut) = true := by
  cases choice with
  | whitespace | string | punctuation | delim => exact h
  | comment | cdo | cdc =>
      rw [Branch.test, Bool.and_eq_true] at h ⊢
      exact ⟨h.1, isPrefixOf_append h.2 _⟩
  | hash =>
      rw [Branch.test, Bool.and_eq_true] at h ⊢
      exact ⟨h.1, Name.splitUnit?_append_isSome h.2 _⟩
  | numeric => exact Numeral.starts_append h _
  | atKeyword =>
      rw [Branch.test, Bool.and_eq_true] at h ⊢
      exact ⟨h.1, Name.startsIdent_append h.2 _⟩
  | range =>
      rw [Branch.test, Bool.and_eq_true] at h ⊢
      exact ⟨h.1, startsRange_append h.2 _⟩
  | named => exact Name.startsIdent_append h _

/-- A branch passes and reads the same when the text is cut off behind what it reads. -/
theorem Branch.read_of_append {c : Char} {rest body : List Char} {choice : Branch}
    (htest : choice.test c rest = true) (h : choice.read c rest = .ok lexeme)
    (htext : lexeme.text = c :: body) (hrest : lexeme.rest = keep ++ cut)
    (hopens : Opens lexeme.kind keep) :
    choice.test c (body ++ keep) = true ∧
      choice.read c (body ++ keep) = .ok { lexeme with rest := keep } := by
  cases choice with
  | whitespace =>
      cases h
      obtain ⟨_, rfl⟩ := List.cons.inj htext
      rcases takeWhile_of_dropWhile_append rfl hrest with ⟨htake, hdrop⟩
      rw [Branch.read, htake, hdrop]
      exact ⟨htest, rfl⟩
  | comment =>
      rw [Branch.test, Bool.and_eq_true, beq_iff_eq] at htest
      obtain ⟨rfl, -⟩ := htest
      rw [Branch.read] at h
      split at h
      · rename_i content after hsplit
        cases h
        change after = keep ++ cut at hrest
        subst hrest
        obtain ⟨_, rfl⟩ := List.cons.inj htext
        have hlong : '*' :: (content ++ ['*', '/']) ++ keep =
            '*' :: (content ++ '*' :: '/' :: keep) :=
          congrArg ('*' :: ·) (List.append_assoc content ['*', '/'] keep)
        change _ ∧ Branch.read '/' ('*' :: (content ++ ['*', '/']) ++ keep) _ = _
        rw [hlong, Branch.read, List.drop_one, List.tail_cons, splitComment?_replace hsplit]
        exact ⟨rfl, rfl⟩
      · cases h
  | string =>
      rw [Branch.read] at h
      split at h
      · rename_i inner after hsplit
        cases h
        change after = keep ++ cut at hrest
        subst hrest
        obtain ⟨_, rfl⟩ := List.cons.inj htext
        rw [Branch.read, splitString?_replace hsplit]
        exact ⟨htest, rfl⟩
      · cases h
  | hash =>
      cases h
      rcases marked_of_append hrest with ⟨hmarked, hname⟩
      obtain ⟨_, hbody⟩ := List.cons.inj htext
      change (Name.split rest).1 = body at hbody
      rw [hbody] at hmarked hname
      rw [Branch.test, Bool.and_eq_true, Name.splitUnit?_isSome_iff, hbody] at htest
      rw [Branch.test, Bool.and_eq_true, Name.splitUnit?_isSome_iff, hname]
      refine ⟨htest, ?_⟩
      rw [Branch.read, hmarked]
  | punctuation kind =>
      cases h
      obtain ⟨_, rfl⟩ := List.cons.inj htext
      exact ⟨htest, rfl⟩
  | cdo =>
      rw [Branch.test, Bool.and_eq_true, beq_iff_eq] at htest
      obtain ⟨rfl, -⟩ := htest
      cases h
      obtain ⟨_, rfl⟩ := List.cons.inj htext
      exact ⟨rfl, rfl⟩
  | numeric =>
      cases h
      rcases numeric_text (c :: rest) with ⟨more, hmore⟩
      have hstarts := Numeral.starts_append (Numeral.starts_split htest) (more ++ keep)
      have hagain := numeric_of_append hrest
      rw [← List.append_assoc, ← hmore, htext] at hstarts
      rw [htext] at hagain
      refine ⟨hstarts, ?_⟩
      rw [Branch.read, ← List.cons_append, hagain]
  | cdc =>
      rw [Branch.test, Bool.and_eq_true, beq_iff_eq] at htest
      obtain ⟨rfl, -⟩ := htest
      cases h
      obtain ⟨_, rfl⟩ := List.cons.inj htext
      exact ⟨rfl, rfl⟩
  | atKeyword =>
      cases h
      rcases marked_of_append hrest with ⟨hmarked, -⟩
      obtain ⟨_, hbody⟩ := List.cons.inj htext
      change (Name.split rest).1 = body at hbody
      rw [Branch.test, Bool.and_eq_true] at htest
      have hident := Name.startsIdent_append (Name.startsIdent_split htest.2) keep
      rw [hbody] at hmarked hident
      rw [Branch.test, hident, Bool.and_true, Branch.read, hmarked]
      exact ⟨htest.1, rfl⟩
  | range =>
      cases h
      rw [Branch.test, Bool.and_eq_true] at htest
      rcases range_of_append hrest with ⟨inner, hinner, hfirst, hagain⟩
      obtain ⟨_, rfl⟩ := List.cons.inj (htext.symm.trans hinner)
      have hstarts := startsRange_append (startsRange_of_front htest.2 hfirst) keep
      refine ⟨Bool.and_eq_true_iff.mpr ⟨htest.1, hstarts⟩, ?_⟩
      rw [Branch.read, List.cons_append, List.drop_one, List.tail_cons, hagain]
  | named =>
      rcases named_text h with ⟨more, hmore⟩
      have hident := Name.startsIdent_append (Name.startsIdent_split htest) (more ++ keep)
      have hagain := named_of_append h hrest hopens
      rw [← List.append_assoc, ← hmore, htext] at hident
      refine ⟨hident, ?_⟩
      rw [Branch.read, ← List.cons_append, ← htext, hagain]
  | delim =>
      cases h
      obtain ⟨_, rfl⟩ := List.cons.inj htext
      exact ⟨rfl, rfl⟩

/-- A lexeme stays the same when the text is cut off anywhere behind it. -/
theorem read_of_append {c : Char} {rest : List Char} (h : read c rest = .ok lexeme)
    (hrest : lexeme.rest = keep ++ cut) (hopens : Opens lexeme.kind keep) :
    exists body, lexeme.text = c :: body ∧
      read c (body ++ keep) = .ok { lexeme with rest := keep } := by
  have happend := read_append h
  cases htext : lexeme.text with
  | nil => exact absurd htext (read_text_ne_nil h)
  | cons d body =>
      rw [htext, hrest] at happend
      obtain ⟨rfl, hshort⟩ := List.cons.inj happend
      rw [read_eq_branch] at h
      rcases Branch.read_of_append (test_branch d rest) h htext hrest hopens with ⟨htest, hread⟩
      refine ⟨body, rfl, ?_⟩
      rw [read_eq_branch, branch_of_test rfl htest, hread, htext]
      intro choice hpasses
      have hlong := Branch.test_append hpasses cut
      rw [List.append_assoc] at hlong
      exact hshort ▸ hlong

end Lexeme

end Stylesheet
