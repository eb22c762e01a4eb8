import Stylesheet.Proofs.Token.Parts
import Stylesheet.Proofs.Token.Seamless

/-!
# Cutting seamless runs

What the scanners of runs cut out of a seamless run is seamless: trimming, stopping at a mark,
splitting at commas, and taking a group or its content.
-/

namespace Stylesheet
namespace Run
namespace Seamless

open Character

variable {run front back : List Token}

theorem front_of_mark {mark : Token} (h : Seamless (front ++ mark :: back))
    (hmark : isMark mark.kind = true) : Seamless front := by
  have hspelled := h.isSpelled (List.mem_append_right _ List.mem_cons_self)
  exact h.front (not_startsQuotedAddress_of_isMark hspelled hmark back)

theorem not_startsQuotedAddress_of_trivia (h : Seamless (front ++ back))
    (htrivia : forall token, token ∈ back -> token.isTrivia = true) :
    Lexeme.startsQuotedAddress (text back).toList = false := by
  have hback := h.back
  clear h
  induction back with
  | nil => rfl
  | cons token back ih =>
      have hspelled := hback.isSpelled List.mem_cons_self
      have hkind := htrivia token List.mem_cons_self
      unfold Token.isTrivia TokenKind.isTrivia at hkind
      split at hkind
      · rename_i hwhitespace
        have hspaces := spaces_of_whitespace hback List.mem_cons_self hwhitespace
        have hrest : Seamless ([token] ++ back) := hback
        rw [text_cons, String.toList_append]
        unfold Lexeme.startsQuotedAddress
        rw [List.dropWhile_append_of_pos hspaces]
        exact ih (fun other hother => htrivia other (List.mem_cons_of_mem _ hother)) hrest.back
      · rename_i content hcomment
        have htext : token.text = "/*" ++ content ++ "*/" :=
          hspelled.spelling _ (by rw [hcomment]; rfl)
        have hlist : token.text.toList = '/' :: '*' :: (content ++ "*/").toList := by
          rw [htext, String.append_assoc, String.toList_append]
          rfl
        exact not_startsQuotedAddress_cons hlist (by decide) (by decide) back
      · cases hkind

theorem trim (h : Seamless run) : Seamless (trim run) := by
  rcases trim_eq_append run with ⟨front, back, hrun, _, hback⟩
  rw [hrun, List.append_assoc] at h
  exact h.back.front (not_startsQuotedAddress_of_trivia h.back hback)

theorem takeUntil_eq (stops : TokenKind -> Bool) (depth : Nat) :
    (takeUntil stops depth run).2 = [] ∨
      exists mark rest, (takeUntil stops depth run).2 = mark :: rest ∧
        (mark.kind = .eof ∨ stops mark.kind = true) := by
  induction run generalizing depth with
  | nil => exact Or.inl rfl
  | cons token rest ih =>
      unfold takeUntil
      split
      · rename_i hstops
        simp only [Bool.or_eq_true, decide_eq_true_eq, Bool.and_eq_true] at hstops
        exact Or.inr ⟨token, rest, rfl, hstops.imp id And.right⟩
      · exact ih (depthAfter depth token)

theorem takeUntil {stops : TokenKind -> Bool} {depth : Nat} (h : Seamless run)
    (hstops : forall kind, stops kind = true -> isMark kind = true) :
    Seamless (takeUntil stops depth run).1 := by
  have happend := takeUntil_append stops depth run
  rcases takeUntil_eq stops depth with hnil | ⟨mark, rest, hrest, hmark⟩
  · rw [hnil, List.append_nil] at happend
    rw [happend]
    exact h
  · rw [hrest] at happend
    rw [← happend] at h
    rcases hmark with heof | hmark
    · exact absurd heof (h.kind_ne_eof (List.mem_append_right _ List.mem_cons_self))
    · exact h.front_of_mark (hstops _ hmark)

theorem isMark_of_isCloser {kind : TokenKind} (h : kind.isCloser = true) : isMark kind = true := by
  cases kind <;> first | rfl | cases h

theorem closer_of_splitGroup? {depth : Nat} {group : Group}
    (h : splitGroup? depth run = some group) : group.closer.isCloser = true := by
  induction run generalizing depth group with
  | nil => cases h
  | cons token rest ih =>
      unfold splitGroup? at h
      split at h
      · rename_i hcloser
        cases h
        rw [Bool.and_eq_true] at hcloser
        exact hcloser.1
      · split at h
        · cases h
        · rename_i inner hinner
          cases h
          have hcloser := ih hinner
          exact hcloser

theorem group {depth : Nat} {group : Group} (h : Seamless run)
    (hgroup : splitGroup? depth run = some group) :
    Seamless group.content ∧ Seamless group.rest := by
  have happend := splitGroup?_append hgroup
  rw [← happend] at h
  refine ⟨h.front_of_mark (isMark_of_isCloser (closer_of_splitGroup? hgroup)), ?_⟩
  rw [List.append_cons] at h
  exact h.back

theorem of_mem_splitTopLevel {separates : TokenKind -> Bool} {part : List Token} (h : Seamless run)
    (hseparates : forall kind, separates kind = true -> isMark kind = true) {depth : Nat}
    (hpart : part ∈ splitTopLevel separates depth run) : Seamless part := by
  generalize hparts : splitTopLevel separates depth run = parts at hpart
  induction parts generalizing run depth with
  | nil => cases hpart
  | cons first later ih =>
      rcases splitTopLevel_eq_cons hparts with
        ⟨-, ⟨rfl, rfl⟩ | ⟨mark, rest, rfl, hmark, -, hlater⟩⟩
      · rw [List.mem_singleton.mp hpart]
        exact h
      · rcases List.mem_cons.mp hpart with rfl | hpart
        · exact h.front_of_mark (hseparates _ hmark.left)
        · rw [List.append_cons] at h
          exact ih h.back hlater.symm hpart

end Seamless
end Run
end Stylesheet
