import Stylesheet.Proofs.Token.Neighbours

/-!
# Tokens that stand alone

The readers look up to three characters past the token that they read.  Main statement: none of
that makes a difference to what has been read, since the text of a token has that token again and
no other.  Only the opening of a function called `url` needs the quote behind it: without one it is
the opening of an address.
-/

namespace Stylesheet
namespace Token

variable {token : Token}

/-- A token that is read alone is the one token of its text. -/
theorem ReadsBefore.tokenize_text (h : token.ReadsBefore []) :
    tokenize token.text =
      .ok [token.bare, ⟨.eof, "", Position.start.after token.text.toList⟩] := by
  rcases h with ⟨c, body, htext, hread⟩
  rw [List.append_nil] at hread
  have hscan := Scan.step hread (Scan.done (Position.start.after (c :: body)))
  have htoken : (⟨token.kind, String.ofList (c :: body), .start⟩ : Token) = token.bare := by
    rw [← htext, String.ofList_toList]
    rfl
  rw [htoken, ← htext] at hscan
  exact scanFrom_of_scan hscan

/-- Only a token that is read alone, and not the end of a source, is the one token of its text. -/
theorem readsBefore_of_tokenize_text {last : Token}
    (h : tokenize token.text = .ok [token.bare, last]) :
    token.kind ≠ .eof ∧ token.ReadsBefore [] := by
  have hscan := scan_of_scanFrom h
  have hkind : token.kind ≠ .eof := by
    rcases hscan.ends_at_eof with ⟨body, last', htokens, _, hbody, _⟩
    have hlist : [token.bare] = body :=
      List.append_inj_left' (show [token.bare] ++ [last] = body ++ [last'] from htokens) rfl
    exact hbody token.bare (hlist ▸ List.mem_cons_self)
  constructor
  · exact hkind
  · rcases hscan.exists_readsBefore List.mem_cons_self hkind with ⟨front, behind, htext, _, hbefore⟩
    have hbehind : behind = [] := by
      have hlength := congrArg List.length htext
      rw [List.length_append, List.length_append, show token.bare.text = token.text from rfl]
        at hlength
      exact List.eq_nil_of_length_eq_zero (by omega)
    rw [hbehind] at hbefore
    exact hbefore

/--
The text of a token has that token again and no other, unless the token is the end of the source
or opens a function called `url` in any case.
-/
theorem tokenize_text_iff {source : String} {tokens : List Token}
    (h : tokenize source = .ok tokens) (hmem : token ∈ tokens) :
    tokenize token.text =
        .ok [token.bare, ⟨.eof, "", Position.start.after token.text.toList⟩] <->
      token.kind ≠ .eof ∧
        forall name, token.kind = .function name -> sameWord name "url" = false := by
  constructor
  · intro halone
    rcases readsBefore_of_tokenize_text halone with ⟨hkind, c, body, htext, hread⟩
    refine ⟨hkind, ?_⟩
    intro name hname
    rw [← Bool.not_eq_true]
    intro hurl
    cases Run.opens_of_read hread name hname hurl
  · rintro ⟨hkind, hurl⟩
    rcases (scan_of_scanFrom h).exists_readsBefore hmem hkind with ⟨_, behind, _, _, hbefore⟩
    have hopens : Lexeme.Opens token.kind [] := by
      intro name hname hword
      rw [hurl name hname] at hword
      cases hword
    exact (hbefore.short hopens).tokenize_text

/-- An exponent that has no digits is a unit, with and without the sign and the arrow behind it. -/
theorem tokenize_text_unit_before_arrow :
    tokenize "2e+-->" = .ok
        [⟨.dimension "2" "e", "2e", ⟨1, 1, 0⟩⟩, ⟨.delim '+', "+", ⟨1, 3, 2⟩⟩,
          ⟨.cdc, "-->", ⟨1, 4, 3⟩⟩, ⟨.eof, "", ⟨1, 7, 6⟩⟩] ∧
      (⟨.dimension "2" "e", "2e", ⟨1, 1, 0⟩⟩ : Token).kind ≠ .eof ∧
      tokenize "2e" = .ok [⟨.dimension "2" "e", "2e", ⟨1, 1, 0⟩⟩, ⟨.eof, "", ⟨1, 3, 2⟩⟩] := by
  have htokens : tokenize "2e+-->" = .ok
      [⟨.dimension "2" "e", "2e", ⟨1, 1, 0⟩⟩, ⟨.delim '+', "+", ⟨1, 3, 2⟩⟩,
        ⟨.cdc, "-->", ⟨1, 4, 3⟩⟩, ⟨.eof, "", ⟨1, 7, 6⟩⟩] := by
    decide +kernel
  have hkind : (⟨.dimension "2" "e", "2e", ⟨1, 1, 0⟩⟩ : Token).kind ≠ .eof := TokenKind.noConfusion
  have hfunction : forall name, TokenKind.dimension "2" "e" = .function name ->
      sameWord name "url" = false := by
    intro name hname
    cases hname
  exact ⟨htokens, hkind, (tokenize_text_iff htokens List.mem_cons_self).mpr ⟨hkind, hfunction⟩⟩

end Token
end Stylesheet
