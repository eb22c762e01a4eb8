import Stylesheet.Proofs.Text.Place
import Stylesheet.Proofs.Token.Scan

/-!
# Tokens tile their source

Main statement: the spans of the tokens of a source follow one another without gaps from
its first character to its last, and both ends of every span are counted right.
-/

namespace Stylesheet
namespace Token

/-- The spans of a list of tokens cover a source without gaps and are counted right. -/
structure Tiles (source : List Char) (tokens : List Token) : Prop where
  ends_at_eof : exists body last, tokens = body ++ [last] ∧ last.kind = .eof ∧
    (forall token, token ∈ body -> token.kind ≠ .eof) ∧
    last.stop.offset = source.length
  starts_at_zero : forall first, tokens.head? = some first -> first.start.offset = 0
  adjacent : tokens.IsChain fun left right => left.stop.offset = right.start.offset
  not_empty : forall token, token ∈ tokens -> token.kind ≠ .eof ->
    token.start.offset < token.stop.offset
  counted : forall token, token ∈ tokens ->
    token.start.IsIn source ∧ token.stop.IsIn source

namespace Scan

variable {position : Position} {text : List Char} {tokens : List Token}

theorem head?_start (h : Scan position text tokens) :
    exists first, tokens.head? = some first ∧ first.start = position := by
  cases h with
  | done => exact ⟨_, rfl, rfl⟩
  | step => exact ⟨_, rfl, rfl⟩

theorem ends_at_eof (h : Scan position text tokens) :
    exists body last, tokens = body ++ [last] ∧ last.kind = .eof ∧
      (forall token, token ∈ body -> token.kind ≠ .eof) ∧
      last.stop.offset = position.offset + text.length := by
  induction h with
  | done position =>
      refine ⟨[], _, rfl, rfl, ?_, rfl⟩
      intro token hmem
      cases hmem
  | @step position c rest lexeme tokens hread hscan ih =>
      rcases ih with ⟨body, last, rfl, hlast, hbody, hstop⟩
      refine ⟨_ :: body, last, rfl, hlast, ?_, ?_⟩
      · intro token hmem
        rcases List.mem_cons.mp hmem with rfl | hmem
        · exact Lexeme.read_kind_ne_eof hread
        · exact hbody token hmem
      · rw [hstop, Position.offset_after, Nat.add_assoc, ← List.length_append,
          Lexeme.read_append hread]

theorem adjacent (h : Scan position text tokens) :
    tokens.IsChain fun left right => left.stop.offset = right.start.offset := by
  induction h with
  | done position => exact List.IsChain.singleton _
  | step hread hscan ih =>
      rcases hscan.head?_start with ⟨first, hfirst, hstart⟩
      rcases List.head?_eq_some_iff.mp hfirst with ⟨later, rfl⟩
      refine List.IsChain.cons_cons ?_ ih
      rw [hstart, stop, String.toList_ofList]

theorem not_empty (h : Scan position text tokens) :
    forall token, token ∈ tokens -> token.kind ≠ .eof ->
      token.start.offset < token.stop.offset := by
  induction h with
  | done position =>
      intro token hmem hkind
      rcases List.mem_singleton.mp hmem with rfl
      exact absurd rfl hkind
  | step hread hscan ih =>
      intro token hmem hkind
      rcases List.mem_cons.mp hmem with rfl | hmem
      · rw [stop, Position.offset_after, String.toList_ofList]
        exact Nat.lt_add_of_pos_right
          (List.length_pos_iff.mpr (Lexeme.read_text_ne_nil hread))
      · exact ih token hmem hkind

/-- The text before the tokens that are scanned decides where they stand. -/
theorem counted (h : Scan position text tokens) (front : List Char)
    (hposition : position = Position.start.after front) :
    forall token, token ∈ tokens ->
      token.start.IsIn (front ++ text) ∧ token.stop.IsIn (front ++ text) := by
  induction h generalizing front with
  | done position =>
      intro token hmem
      rcases List.mem_singleton.mp hmem with rfl
      have hend : position.IsIn (front ++ []) := by
        rw [hposition]
        exact Position.isIn_after_start front []
      exact ⟨hend, hend⟩
  | @step position c rest lexeme tokens hread hscan ih =>
      have happend := Lexeme.read_append hread
      have hnext : position.after lexeme.text =
          Position.start.after (front ++ lexeme.text) := by
        rw [hposition, Position.after_append]
      intro token hmem
      rw [← happend, ← List.append_assoc]
      rcases List.mem_cons.mp hmem with rfl | hmem
      · constructor
        · rw [hposition, List.append_assoc]
          exact Position.isIn_after_start front _
        · rw [stop, String.toList_ofList, hnext]
          exact Position.isIn_after_start _ _
      · exact ih _ hnext token hmem

end Scan

theorem tiles_of_tokenize {source : String} {tokens : List Token}
    (h : tokenize source = .ok tokens) : Tiles source.toList tokens := by
  have hscan := scan_of_scanFrom h
  constructor
  · rcases hscan.ends_at_eof with ⟨body, last, htokens, hlast, hbody, hstop⟩
    rw [show Position.start.offset = 0 from rfl, Nat.zero_add] at hstop
    exact ⟨body, last, htokens, hlast, hbody, hstop⟩
  · intro first hfirst
    rcases hscan.head?_start with ⟨first', hfirst', hstart⟩
    rw [hfirst] at hfirst'
    cases hfirst'
    rw [hstart]
    rfl
  · exact hscan.adjacent
  · exact hscan.not_empty
  · exact hscan.counted [] rfl

/-- An escape takes a line feed with it, a NUL is a token, and a string spans two lines. -/
theorem tiles_escaped_line_feeds :
    tokenize "\\41\n\x00'\\\n'" = .ok
        [⟨.ident "\\41\n", "\\41\n", ⟨1, 1, 0⟩⟩, ⟨.delim '\x00', "\x00", ⟨2, 1, 4⟩⟩,
          ⟨.string "'\\\n'", "'\\\n'", ⟨2, 2, 5⟩⟩, ⟨.eof, "", ⟨3, 2, 9⟩⟩] ∧
      Tiles "\\41\n\x00'\\\n'".toList
        [⟨.ident "\\41\n", "\\41\n", ⟨1, 1, 0⟩⟩, ⟨.delim '\x00', "\x00", ⟨2, 1, 4⟩⟩,
          ⟨.string "'\\\n'", "'\\\n'", ⟨2, 2, 5⟩⟩, ⟨.eof, "", ⟨3, 2, 9⟩⟩] := by
  have htokens : tokenize "\\41\n\x00'\\\n'" = .ok
      [⟨.ident "\\41\n", "\\41\n", ⟨1, 1, 0⟩⟩, ⟨.delim '\x00', "\x00", ⟨2, 1, 4⟩⟩,
        ⟨.string "'\\\n'", "'\\\n'", ⟨2, 2, 5⟩⟩, ⟨.eof, "", ⟨3, 2, 9⟩⟩] := by
    decide +kernel
  exact ⟨htokens, tiles_of_tokenize htokens⟩

end Token
end Stylesheet
