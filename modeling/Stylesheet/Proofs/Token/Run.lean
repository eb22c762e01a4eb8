import Mathlib.Data.List.Induction
import Mathlib.Data.List.TakeWhile
import Stylesheet.Token.Run

/-!
# What the scanners of runs keep

Trimming keeps the middle of a run, and every cut at brackets or separators keeps its tokens in
order.
-/

namespace Stylesheet
namespace Run

/-! ## Trimming -/

theorem trimStart_suffix (run : List Token) : trimStart run <:+ run :=
  List.dropWhile_suffix _

theorem trimStart_cons_of_not_trivia {token : Token} (h : token.isTrivia = false)
    (rest : List Token) : trimStart (token :: rest) = token :: rest :=
  List.dropWhile_cons_of_neg (ne_true_of_eq_false h)

theorem not_trivia_of_trimStart_eq_cons {run rest : List Token} {token : Token}
    (h : trimStart run = token :: rest) : token.isTrivia = false := by
  have hhead := List.head?_dropWhile_not Token.isTrivia run
  change run.dropWhile Token.isTrivia = token :: rest at h
  rw [h] at hhead
  exact hhead

theorem trim_prefix_trimStart (run : List Token) : trim run <+: trimStart run := by
  unfold trim
  rw [← List.reverse_suffix, List.reverse_reverse]
  exact trimStart_suffix _

theorem isInfix_trim (run : List Token) : trim run <:+: run :=
  (trim_prefix_trimStart run).isInfix.trans (trimStart_suffix run).isInfix

theorem trim_sublist (run : List Token) : (trim run).Sublist run :=
  (isInfix_trim run).sublist

/-- What stays of a run that begins with no trivia begins with the same token. -/
theorem trim_cons_of_not_trivia {token : Token} (h : token.isTrivia = false)
    (rest : List Token) : exists rest', trim (token :: rest) = token :: rest' := by
  unfold trim
  rw [trimStart_cons_of_not_trivia h, List.reverse_cons]
  unfold trimStart
  rw [List.dropWhile_append]
  split
  · exact ⟨[], by simp [List.dropWhile_cons_of_neg, h]⟩
  · exact ⟨_, by rw [List.reverse_append]; rfl⟩

theorem not_trivia_of_trim_eq_cons {run rest : List Token} {token : Token}
    (h : trim run = token :: rest) : token.isTrivia = false := by
  rcases trim_prefix_trimStart run with ⟨more, hmore⟩
  rw [h, List.cons_append] at hmore
  exact not_trivia_of_trimStart_eq_cons hmore.symm

/-- Trimming takes whitespace and comments away at both ends. -/
theorem trim_eq_append (run : List Token) :
    exists front back, run = front ++ trim run ++ back ∧
      (forall token, token ∈ front -> token.isTrivia = true) ∧
      forall token, token ∈ back -> token.isTrivia = true := by
  refine ⟨run.takeWhile Token.isTrivia,
    ((trimStart run).reverse.takeWhile Token.isTrivia).reverse, ?_, ?_, ?_⟩
  · have hback := congrArg List.reverse
      (List.takeWhile_append_dropWhile (p := Token.isTrivia) (l := (trimStart run).reverse))
    rw [List.reverse_append, List.reverse_reverse] at hback
    have hfront := List.takeWhile_append_dropWhile (p := Token.isTrivia) (l := run)
    rw [List.append_assoc, trim]
    exact hfront.symm.trans (congrArg _ hback.symm)
  · intro token htoken
    exact List.mem_takeWhile_imp htoken
  · intro token htoken
    exact List.mem_takeWhile_imp (List.mem_reverse.mp htoken)

/-! ## Cutting -/

theorem flatten_splitTopLevel_sublist (separates : TokenKind -> Bool) (depth : Nat)
    (run : List Token) : (splitTopLevel separates depth run).flatten.Sublist run := by
  induction run generalizing depth with
  | nil => exact List.Sublist.refl _
  | cons token rest ih =>
      unfold splitTopLevel
      split
      · exact (ih 0).cons token
      · have hrest := ih (depthAfter depth token)
        split
        · exact (List.nil_sublist rest).cons_cons token
        · rename_i part parts heq
          rw [heq] at hrest
          exact hrest.cons_cons token

/-- The end of the source is never taken. -/
theorem takeUntil_concat {stops : TokenKind -> Bool} {last : Token} (hlast : last.kind = .eof)
    (depth : Nat) (run : List Token) :
    (takeUntil stops depth (run ++ [last])).1 = (takeUntil stops depth run).1 := by
  induction run generalizing depth with
  | nil => simp [takeUntil, hlast]
  | cons token rest ih =>
      rw [List.cons_append, takeUntil, takeUntil]
      split
      · rfl
      · exact congrArg (token :: ·) (ih _)

theorem content_sublist {depth : Nat} {run : List Token} {group : Group}
    (h : splitGroup? depth run = some group) : group.content.Sublist run := by
  rw [← splitGroup?_append h]
  exact List.sublist_append_left _ _

theorem rest_sublist {depth : Nat} {run : List Token} {group : Group}
    (h : splitGroup? depth run = some group) : group.rest.Sublist run := by
  rw [← splitGroup?_append h]
  exact (List.sublist_cons_self _ _).trans (List.sublist_append_right _ _)

end Run
end Stylesheet
