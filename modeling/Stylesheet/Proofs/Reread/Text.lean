import Stylesheet.Generate
import Stylesheet.Proofs.Reread.Sheet

/-!
# Stylesheets that are read back from their text

Where no token joins its neighbours, the tokens of the text of a run are those of the run but for
their places, and without locations places tell no two stylesheets apart.
-/

namespace Stylesheet

open Node Token Run

namespace Sheet

/-- Places of tokens decide nothing where no locations are recorded. -/
theorem ofTokens_moved_iff (place : Position -> Position) {tokens : List Token} {tree : Node} :
    ofTokens none (Run.moved place tokens) = .ok tree <-> ofTokens none tokens = .ok tree := by
  rw [ofTokens_moved place forgets_id]
  cases ofTokens none tokens with
  | error error => exact ⟨fun h => (nomatch h), fun h => (nomatch h)⟩
  | ok node => exact Iff.rfl

end Sheet

/-- The text of a run is parsed as its tokens are, when no token joins its neighbours. -/
theorem exists_parse_text_iff {run : List Token} (hrun : Seamless (run.map bare)) :
    exists last, last.kind = .eof ∧ forall tree,
      parse (Run.text run) {} = .ok tree <-> Sheet.ofTokens none (run ++ [last]) = .ok tree := by
  rcases tokenize_of_seamless hrun with ⟨body, last, htokens, hlast, hbody⟩
  rw [text_map_bare] at htokens
  have hparse : parse (Run.text run) {} = Sheet.ofTokens none (body ++ [last]) := by
    unfold parse
    rw [htokens]
    rfl
  have hmoved : Run.moved (fun _ => .start) (body ++ [last]) =
      Run.moved (fun _ => .start) (run ++ [last]) := by
    rw [Run.moved_append, Run.moved_append]
    exact congrArg (· ++ _) hbody
  refine ⟨last, hlast, fun tree => ?_⟩
  rw [hparse, ← Sheet.ofTokens_moved_iff fun _ => .start, hmoved, Sheet.ofTokens_moved_iff]

/-- What is parsed is read from what is left of a source when nothing has been read. -/
theorem exists_isSource_of_parse {text : String} {tree : Node} (h : parse text {} = .ok tree) :
    exists tokens, Sheet.IsSource tokens ∧ Sheet.ofTokens none tokens = .ok tree := by
  unfold parse at h
  split at h
  · cases h
  · rename_i tokens htokens
    rcases (scan_of_scanFrom htokens).lexes with ⟨body, last, rfl, hlast, -, hlexes⟩
    refine ⟨Run.moved (fun _ => .start) (body ++ [last]), ⟨body.map bare, last.bare, ?_, ?_, ?_⟩, ?_⟩
    · rw [Run.moved_append]
      rfl
    · rw [hlast]
    · exact seamless_of_lexes hlexes
    · exact (Sheet.ofTokens_moved_iff _).mpr h

end Stylesheet
