import Stylesheet.Proofs.Reread.Overruns
import Stylesheet.Proofs.Reread.Text

/-!
# Parsing what was generated

No whitespace is written beside some operators, and a slash before an asterisk then begins a
comment: the text that is generated for a tree need not be a stylesheet.  Main statement: a tree
whose tokens do not join is parsed back just when its items close the groups that they open.
-/

namespace Stylesheet

open Node Token Run

theorem parse_generate_slash_star :
    exists tree error, parse "a\x7bb:1/ *2\x7d" {} = .ok tree ∧
      generate tree = "a\x7bb:1/*2\x7d" ∧ parse (generate tree) {} = .error error := by
  have hcss : (parse "a\x7bb:1/ *2\x7d" {}).toOption.map generate =
      some "a\x7bb:1/*2\x7d" := by
    decide +kernel
  have hfails : (parse "a\x7bb:1/*2\x7d" {}).isOk = false := by
    decide +kernel
  cases hparse : parse "a\x7bb:1/ *2\x7d" {} with
  | error error =>
      rw [hparse] at hcss
      cases hcss
  | ok tree =>
      rw [hparse] at hcss
      have hgenerate : generate tree = "a\x7bb:1/*2\x7d" := Option.some.inj hcss
      rw [← hgenerate] at hfails
      cases hagain : parse (generate tree) {} with
      | ok tree' =>
          rw [hagain] at hfails
          cases hfails
      | error error => exact ⟨tree, error, rfl, hgenerate, hagain⟩

theorem map_bare_of_seamless {run : List Token} (h : Seamless run) : run.map bare = run := by
  conv_rhs => rw [← List.map_id run]
  exact List.map_congr_left fun token htoken => h.bare_eq htoken

/--
A tree whose tokens do not join is parsed back from what is generated for it just when its
declarations, and its at-rules without a block, close the groups that they open.
-/
theorem parse_generate_iff {text : String} {tree : Node} (h : parse text {} = .ok tree)
    (hseamless : Seamless tree.written) :
    parse (generate tree) {} = .ok tree <-> tree.closesGroups = true := by
  rcases exists_isSource_of_parse h with ⟨tokens, hsource, htokens⟩
  rcases exists_parse_text_iff ((map_bare_of_seamless hseamless).symm ▸ hseamless) with
    ⟨last, hlast, hiff⟩
  rw [generate, ← text_written, hiff]
  exact Sheet.ofTokens_written_iff hsource htokens hseamless hlast

/-- Blocks within blocks, an argument of selectors, a position, and values of several kinds. -/
def nestedSheet : String :=
  "@media (a: 9px)\x7bb:not(.c, #d) > e:nth-child(2n + 1 of f)\x7bg: H url( i ) !important;" ++
    "--j: k /**/ l\x7d\x7d@import \"m\""

theorem parse_generate_nestedSheet :
    exists tree, parse nestedSheet {} = .ok tree ∧ Seamless tree.written ∧
      tree.closesGroups = true ∧ parse (generate tree) {} = .ok tree := by
  have hsource : (parse nestedSheet {}).toOption.map
      (fun tree => decide (Seamless tree.written) && tree.closesGroups) = some true := by
    decide +kernel
  cases hparse : parse nestedSheet {} with
  | error error =>
      rw [hparse] at hsource
      cases hsource
  | ok tree =>
      rw [hparse] at hsource
      have hboth := Option.some.inj hsource
      rw [Bool.and_eq_true, decide_eq_true_iff] at hboth
      rcases hboth with ⟨hseamless, hgroups⟩
      exact ⟨tree, rfl, hseamless, hgroups, (parse_generate_iff hparse hseamless).mpr hgroups⟩

end Stylesheet
