import Stylesheet.Proofs.Range.Basic
import Stylesheet.Proofs.Sheet.Passing

/-!
# What errors point at

An error of the parser is laid to a token of the source.  A brace that closes nothing stands
behind a text that is a stylesheet: the tokens in front of a mark are the tokens of the text in
front of it, and an item that is passed in front of the mark is passed at the end of that text as
well.  Main statement: a source fails exactly where reading comes to tokens that fail, and the error
is at the start of the culprit.
-/

namespace Stylesheet

open Run

/-! ## The text in front of a mark -/

namespace Run

theorem Adjoins.eq_of_map_bare {position : Position} {run other : List Token}
    (hrun : Adjoins position run) (hother : Adjoins position other)
    (h : run.map Token.bare = other.map Token.bare) : run = other := by
  induction run generalizing position other with
  | nil => exact (List.map_eq_nil_iff.mp h.symm).symm
  | cons token run ih =>
      rcases List.map_eq_cons_iff.mp h.symm with ⟨first, rest, rfl, hfirst, hrest⟩
      rcases hrun with ⟨hstart, hrun⟩
      rcases hother with ⟨hstart', hother⟩
      have htoken : first = token := by
        rcases token with ⟨kind, text, start⟩
        rcases first with ⟨kind', text', start'⟩
        cases hfirst
        exact congrArg (Token.mk kind text) (hstart'.trans hstart.symm)
      subst htoken
      rw [ih hrun hother hrest.symm]

end Run

namespace Token

variable {text : List Char} {front back : List Token} {mark : Token}

/-- The tokens in front of a mark are those of the text in front of it. -/
theorem Scan.front_of_mark (h : Scan .start text (front ++ mark :: back))
    (hmark : isMark mark.kind = true) :
    exists last, last.kind = .eof ∧
      Scan .start (text.take mark.start.offset) (front ++ [last]) := by
  have htext : text.take mark.start.offset = chars front := by
    rw [h.adjoins.offsets.left, ← h.chars_eq, chars_append, List.take_left]
  rcases h.lexes with ⟨body, last, htokens, hlast, _, hlexes⟩
  have hbody : exists behind, body = front ++ mark :: behind := by
    rcases List.eq_nil_or_concat back with rfl | ⟨behind, token, rfl⟩
    · rcases List.append_inj' htokens rfl with ⟨_, hmarks⟩
      obtain rfl := List.singleton_inj.mp hmarks
      have heof : mark.kind = .eof := congrArg Token.kind hlast
      rw [heof] at hmark
      cases hmark
    · rw [List.concat_eq_append, ← List.cons_append, ← List.append_assoc] at htokens
      exact ⟨behind, (List.append_inj' htokens rfl).left.symm⟩
  rcases hbody with ⟨behind, rfl⟩
  have hseamless := seamless_of_lexes hlexes
  rw [List.map_append, List.map_cons] at hseamless
  have hspelled := hseamless.isSpelled (List.mem_append_right _ List.mem_cons_self)
  -- No token takes more of the text when the mark is cut off behind it.
  have hfront := hseamless.front (not_startsQuotedAddress_of_isMark hspelled hmark _)
  rcases Lexes.scan hfront .start with ⟨other, last', hscan, hlast', hother⟩
  have hadjoins := (Adjoins.append_iff.mp hscan.adjoins).left
  have hsame : other = front :=
    hadjoins.eq_of_map_bare (Adjoins.append_iff.mp h.adjoins).left hother
  rw [hsame, text_map_bare] at hscan
  rw [htext]
  exact ⟨last', hlast', hscan⟩

end Token

namespace Sheet

variable {source : SourceName} {scopes scopes' : List Scope} {front item rest : List Token}
  {mark last : Token}

/-! ## The end of the source in place of a rest -/

/-- An item that is passed in front of a mark is passed where the source ends in its place. -/
theorem Passes.cut (h : Passes scopes item (front ++ mark :: rest) scopes')
    (hlast : last.kind = .eof) : Passes scopes item (front ++ [last]) scopes' := by
  generalize hrest : front ++ mark :: rest = behind at h
  cases h with
  | alone h => exact Passes.alone h
  | close hscopes hkind => exact Passes.close hscopes hkind
  | statement hkind hcut hmark => exact Passes.statement hkind hcut hmark
  | atRule hkind hcut hmark => exact Passes.atRule hkind hcut hmark
  | rule hbegins hitem hcut hmark => exact Passes.rule hbegins hitem hcut hmark
  | bare hkind hcut hmark =>
      cases front with
      | nil => exact Passes.bare hkind (hcut.of_eof hlast) (Or.inr hlast)
      | cons next front =>
          obtain ⟨rfl, _⟩ := List.cons.inj hrest
          exact Passes.bare hkind hcut hmark
  | declaration hbegins hcut hrun hcolon hproperty =>
      cases front with
      | nil => exact Passes.declaration hbegins (hcut.of_eof hlast) hrun hcolon hproperty
      | cons next front =>
          obtain ⟨rfl, _⟩ := List.cons.inj hrest
          exact Passes.declaration hbegins hcut hrun hcolon hproperty

theorem ComesTo.cut {between : List Token} (h : ComesTo front scopes (between ++ mark :: rest))
    (hlast : last.kind = .eof) : ComesTo front scopes (between ++ [last]) := by
  generalize hbehind : between ++ mark :: rest = behind at h
  induction h generalizing between with
  | start => exact ComesTo.start
  | @step front item _ _ _ _ hitem ih =>
      -- The mark stands behind the last item, and so behind all that was read before it.
      subst hbehind
      have hfront := ih (List.append_assoc item between (mark :: rest))
      rw [List.append_assoc] at hfront
      exact hfront.step (hitem.cut hlast)

/-- What has been read in front of a mark is a stylesheet. -/
theorem ComesTo.exists_ofTokens (source : SourceName) (h : ComesTo front scopes (mark :: rest))
    (hlast : last.kind = .eof) : exists tree, ofTokens source (front ++ [last]) = .ok tree := by
  have hcut : ComesTo front scopes ([] ++ [last]) := ComesTo.cut h hlast
  rcases hcut.readItems_eq source with ⟨state, _, hread⟩
  rw [List.nil_append, readItems_eof hlast] at hread
  rw [ofTokens, hread]
  exact ⟨_, rfl⟩

/-! ## Culprits -/

theorem Fails.culprit_mem {tokens : List Token} {fault : ParseFault} {culprit : Token}
    (h : Fails scopes tokens fault culprit) : culprit ∈ tokens := by
  cases h with
  | strayBrace | missingColon | missingProperty => exact List.mem_cons_self
  | missingBlock =>
      exact List.mem_cons_of_mem _ (List.mem_append_right _ List.mem_cons_self)

/-- Of the wordings of faults only four are the parser's own. -/
theorem Fails.text_mem {tokens : List Token} {fault : ParseFault} {culprit : Token}
    (h : Fails scopes tokens fault culprit) :
    fault.text ∈ ["Unexpected '\x7d'", "Expected '\x7b'", "Expected ':' after property",
      "Expected property name"] := by
  cases h <;> decide

theorem ofTokens_eq_error_iff {tokens : List Token} {error : ParseError} :
    ofTokens source tokens = .error error <-> readItems source .initial tokens = .error error := by
  unfold ofTokens
  cases readItems source .initial tokens with
  | error fails => rw [Except.error.injEq, Except.error.injEq]
  | ok state => constructor <;> intro h <;> cases h

end Sheet

open Sheet

theorem parse_of_tokenize {text : String} {tokens : List Token} (options : ParseOptions)
    (h : tokenize text = .ok tokens) :
    parse text options = ofTokens options.sourceName tokens := by
  rw [parse, h]

/--
A source fails exactly where reading comes to tokens that fail, and the error is at the start of
the culprit: a token of the source, in front of which the text is a stylesheet if it is a brace
that closes nothing.
-/
theorem parse_eq_error_iff {text : String} {tokens : List Token} {error : ParseError}
    (options : ParseOptions) (htokens : tokenize text = .ok tokens) :
    parse text options = .error error <->
      exists culprit, FailsAt tokens error.fault culprit ∧ culprit ∈ tokens ∧
        error.position = culprit.start ∧
        error.fault.text ∈ ["Unexpected '\x7d'", "Expected '\x7b'", "Expected ':' after property",
          "Expected property name"] ∧
        (error.fault = .strayBrace -> exists tree,
          parse (String.ofList (text.toList.take culprit.start.offset)) options = .ok tree) := by
  have hscan := Token.scan_of_scanFrom htokens
  rw [parse_of_tokenize options htokens, ofTokens_eq_error_iff,
    readItems_eq_error_iff (hasEnd_of_scan hscan)]
  constructor
  · intro h
    rcases h with ⟨culprit, hat, hposition⟩
    rcases hat with ⟨front, scopes, rest, rfl, hcomes, hfails⟩
    refine ⟨culprit, ⟨front, scopes, rest, rfl, hcomes, hfails⟩,
      List.mem_append_right _ hfails.culprit_mem, hposition, hfails.text_mem, ?_⟩
    intro hstray
    rw [hstray] at hfails
    cases hfails with
    | @strayBrace _ rest _ hkind =>
        have hmark : isMark culprit.kind = true := by
          rw [hkind]
          rfl
        rcases hscan.front_of_mark hmark with ⟨last, hlast, hfront⟩
        rcases hcomes.exists_ofTokens options.sourceName hlast with ⟨tree, htree⟩
        have hread : tokenize (String.ofList (text.toList.take culprit.start.offset)) =
            .ok (front ++ [last]) := by
          rw [tokenize, String.toList_ofList]
          exact Token.scanFrom_of_scan hfront
        exact ⟨tree, (parse_of_tokenize options hread).trans htree⟩
  · intro h
    rcases h with ⟨culprit, hat, _, hposition, _⟩
    exact ⟨culprit, hat, hposition⟩

/-- Behind the brace that closes a rule another closes nothing, and the rule is a stylesheet. -/
theorem parse_eq_error_iff_second_brace :
    let word : Token := ⟨.ident "a", "a", ⟨1, 1, 0⟩⟩
    let opener : Token := ⟨.leftBrace, "\x7b", ⟨1, 2, 1⟩⟩
    let closer : Token := ⟨.rightBrace, "\x7d", ⟨1, 3, 2⟩⟩
    let stray : Token := ⟨.rightBrace, "\x7d", ⟨1, 4, 3⟩⟩
    tokenize "a\x7b\x7d\x7d" = .ok [word, opener, closer, stray, ⟨.eof, "", ⟨1, 5, 4⟩⟩] ∧
      parse "a\x7b\x7d\x7d" {} = .error ⟨.strayBrace, stray.start⟩ ∧
        exists tree, parse "a\x7b\x7d" {} = .ok tree := by
  intro word opener closer stray
  have htokens : tokenize "a\x7b\x7d\x7d" =
      .ok [word, opener, closer, stray, ⟨.eof, "", ⟨1, 5, 4⟩⟩] := by
    decide +kernel
  have hrule : Passes [] [word, opener] [closer, stray, ⟨.eof, "", ⟨1, 5, 4⟩⟩] [.declarations] := by
    have hitem : BeginsItem word := ⟨nofun, nofun, nofun, nofun, nofun⟩
    have hcut : takeUntil endsPrelude 0 [word, opener] = ([word], [opener]) := rfl
    exact Passes.rule ⟨nofun, hitem, nofun, nofun⟩ rfl (takeUntil_eq_iff.mp hcut).right rfl
  have hclose : Passes [.declarations] [closer] [stray, ⟨.eof, "", ⟨1, 5, 4⟩⟩] [] :=
    Passes.close rfl rfl
  have hcomes : ComesTo [word, opener, closer] [] [stray, ⟨.eof, "", ⟨1, 5, 4⟩⟩] :=
    ComesTo.step (ComesTo.step ComesTo.start hrule) hclose
  have hat : FailsAt [word, opener, closer, stray, ⟨.eof, "", ⟨1, 5, 4⟩⟩] .strayBrace stray :=
    ⟨_, _, _, rfl, hcomes, Fails.strayBrace rfl rfl⟩
  have herror : parse "a\x7b\x7d\x7d" {} = .error ⟨.strayBrace, stray.start⟩ := by
    rw [parse_of_tokenize _ htokens, ofTokens_eq_error_iff,
      readItems_eq_error_iff (hasEnd_of_scan (Token.scan_of_scanFrom htokens))]
    exact ⟨stray, hat, rfl⟩
  rcases (parse_eq_error_iff _ htokens).mp herror with ⟨culprit, _, _, hposition, _, hfront⟩
  rw [← hposition] at hfront
  exact ⟨htokens, herror, hfront rfl⟩

end Stylesheet
